import ComputerNetworks.Transfer.ReceiverInvariant
import ComputerNetworks.Transfer.System

/-!
# The joint invariant of a transfer

The sender's and the receiver's laws hold side by side, with the receiver's base
among the sender's outstanding chunks. What travels is tied to them: a frame
carries the file name or a chunk the sender has created, and the acks, in the
order of sending, carry non-decreasing bases of the receiver and non-decreasing
times, so that an ack newer than the last accepted one cannot be behind the
sender's base.
-/

namespace ComputerNetworks.Transfer

open Lib

/-- An ack together with the receiver's base when it was sent. -/
structure LoggedAck where
  ack : Ack
  base : ℕ

namespace LoggedAck

/-- An ack sent when the receiver's base was `base`, at most `bound` by now, and
stamped no later than `clock`. -/
structure Valid (bound clock : ℕ) (entry : LoggedAck) : Prop where
  bounded : entry.base ≤ bound
  number : entry.ack.ackNum = (entry.base + 15) % seqLen
  stamped : entry.ack.time ≤ clock % 2 ^ 32

/-- `later` was sent after `earlier`. -/
def Before (earlier later : LoggedAck) : Prop :=
  earlier.ack.time ≤ later.ack.time ∧ earlier.base ≤ later.base

end LoggedAck

namespace System

/-- The acks sent so far, with their bases. -/
structure AckLog (sys : System) (log : List LoggedAck) : Prop where
  acks : sys.acks = log.map LoggedAck.ack
  valid : ∀ entry ∈ log, entry.Valid sys.rcvBase sys.clock
  ordered : log.Pairwise LoggedAck.Before
  fresh : ∀ entry ∈ log, sys.sender.lastAckTime < entry.ack.time → sys.sndBase ≤ entry.base

/-- The joint invariant, with `q` chunks outstanding at the sender. -/
structure Joint (job : Job) (q : ℕ) (sys : System) : Prop where
  sender : sys.sender.Aligned job.file sys.sndBase q
  counter : ∀ offset, sys.sender.phase = .pass offset → offset ≤ q ∧ offset < windowLen
  receiver : sys.receiver.phase ≠ .naming →
    sys.receiver.Buffering job.file sys.rcvBase (sys.sndBase + q)
  naming : sys.receiver.phase = .naming → sys.receiver = .start ∧ sys.rcvBase = 0
  below : sys.sndBase ≤ sys.rcvBase
  above : sys.rcvBase ≤ sys.sndBase + q
  frames : ∀ f ∈ sys.frames, f = job.nameFrame ∨ ∃ j < sys.sndBase + q, f = job.file.frame j
  acks : ∃ log, sys.AckLog log
  left : sys.sender.phase = .left → sys.rcvBase = job.file.lastChunk + 1
  closed : sys.receiver.phase = .data ↔ sys.receiver.phase ≠ .naming ∧ sys.receiver.readyExit ≠ 2

/-- The invariant of all reachable states. -/
def Inv (job : Job) (sys : System) : Prop := ∃ q, sys.Joint job q

variable {job : Job} {q : ℕ} {sys : System}

theorem Inv.start (job : Job) (clock : ℕ) : (start clock).Inv job :=
  ⟨0, {
    sender := Sender.Aligned.start job.file
    counter := by simp [System.start, Sender.start]
    receiver := fun h => absurd rfl h
    naming := fun _ => ⟨rfl, rfl⟩
    below := le_rfl
    above := le_rfl
    frames := by simp [System.start]
    acks := ⟨[], by constructor <;> simp [System.start]⟩
    left := by simp [System.start, Sender.start]
    closed := by simp [System.start, Receiver.start] }⟩

/-- Two entries of a log that are not the same were sent in some order. -/
theorem AckLog.before_or {log : List LoggedAck} (h : sys.AckLog log) {x y : LoggedAck}
    (hx : x ∈ log) (hy : y ∈ log) : x = y ∨ x.Before y ∨ y.Before x := by
  obtain ⟨i, hi, rfl⟩ := List.getElem_of_mem hx
  obtain ⟨k, hk, rfl⟩ := List.getElem_of_mem hy
  rcases lt_trichotomy i k with less | rfl | greater
  · exact .inr (.inl (List.pairwise_iff_getElem.mp h.ordered i k hi hk less))
  · exact .inl rfl
  · exact .inr (.inr (List.pairwise_iff_getElem.mp h.ordered k i hk hi greater))

/-- Acks newer than an accepted one carry no smaller base: they were sent later. -/
theorem AckLog.newer {log : List LoggedAck} (h : sys.AckLog log) {x y : LoggedAck}
    (hx : x ∈ log) (hy : y ∈ log) (newer : x.ack.time < y.ack.time) : x.base ≤ y.base := by
  rcases h.before_or hx hy with rfl | before | after
  · exact le_rfl
  · exact before.2
  · exact absurd after.1 (not_le.mpr newer)

/-- The log grows by an ack stamped with a later reading of the clock. -/
theorem AckLog.append {log : List LoggedAck} (h : sys.AckLog log) {tv : Timeval}
    (ticks : sys.ticks tv = true) {r : Receiver} {ack : Ack} {base : ℕ}
    (unwrapped : unwrap seqLen sys.rcvBase r.laSeq = base) (advanced : sys.rcvBase ≤ base)
    (below : sys.sndBase ≤ base) (number : ack.ackNum = (base + 15) % seqLen)
    (time : ack.time = tv.micros % 2 ^ 32) :
    (sys.acked tv (r, ack)).AckLog (log ++ [⟨ack, base⟩]) := by
  simp only [System.ticks, decide_eq_true_eq] at ticks
  obtain ⟨later, epoch⟩ := ticks
  -- both readings lie in one epoch of the 32-bit stamps
  have monotone : sys.clock % 2 ^ 32 ≤ tv.micros % 2 ^ 32 := by omega
  refine ⟨?_, ?_, ?_, ?_⟩
  · simp [acked, h.acks]
  · intro entry member
    simp only [acked, unwrapped]
    rcases List.mem_append.mp member with old | new
    · have valid := h.valid entry old
      exact ⟨valid.bounded.trans advanced, valid.number, valid.stamped.trans monotone⟩
    · rw [List.mem_singleton.mp new]
      exact ⟨le_rfl, number, time.le⟩
  · rw [List.pairwise_append]
    refine ⟨h.ordered, List.pairwise_singleton _ _, fun x hx y hy => ?_⟩
    rw [List.mem_singleton.mp hy]
    have valid := h.valid x hx
    exact ⟨(valid.stamped.trans monotone).trans time.ge, valid.bounded.trans advanced⟩
  · intro entry member newer
    rcases List.mem_append.mp member with old | new
    · exact h.fresh entry old newer
    · rw [List.mem_singleton.mp new]
      exact below

/-! ### Moves of the sender -/

/-- A move of the sender to an aligned state keeps the invariant if it acknowledges
nothing the receiver has not got and sends only frames of created chunks. -/
theorem Joint.sent (h : sys.Joint job q) {s : Sender} {out : List Frame} {base q' : ℕ}
    {log : List LoggedAck} (acks : sys.AckLog log) (aligned : s.Aligned job.file base q') (forward : sys.sndBase ≤ base)
    (created : sys.sndBase + q ≤ base + q') (received : base ≤ sys.rcvBase)
    (counter : ∀ offset, s.phase = .pass offset → offset ≤ q' ∧ offset < windowLen)
    (frames : ∀ f ∈ out, f = job.nameFrame ∨ ∃ j < base + q', f = job.file.frame j)
    (fresh : ∀ entry ∈ log, s.lastAckTime < entry.ack.time → base ≤ entry.base)
    (left : s.phase = .left → sys.rcvBase = job.file.lastChunk + 1) :
    (sys.sent (s, out)).Joint job q' := by
  have above := h.above
  have window := h.sender.window
  -- the new base is less than one revolution away
  have unwrapped : unwrap seqLen sys.sndBase s.laSeq = base := by
    rw [aligned.laSeq]
    apply unwrap_mod forward
    dsimp only [windowLen, seqLen] at *
    omega
  have base_eq : (sys.sent (s, out)).sndBase = base := unwrapped
  refine ⟨base_eq ▸ aligned, counter, fun started => ?_, h.naming, base_eq ▸ received,
    base_eq ▸ h.above.trans created, fun f member => ?_, ⟨log, acks.acks, acks.valid,
      acks.ordered, fun entry member newer => base_eq ▸ fresh entry member newer⟩,
    left, h.closed⟩
  · rw [base_eq]
    exact (h.receiver started).mono created
  · rw [base_eq]
    rcases List.mem_append.mp member with old | new
    · rcases h.frames f old with name | ⟨j, small, same⟩
      · exact .inl name
      · exact .inr ⟨j, by omega, same⟩
    · exact frames f new

/-- What a poll can return: nothing, or a datagram that was sent. -/
theorem mem_of_pick {α : Type*} {sent : List α} {recv : Option ℕ} {x : α}
    (picked : pick sent recv = some (some x)) : x ∈ sent := by
  cases recv with
  | none => simp [pick] at picked
  | some k =>
    simp only [pick, Option.map_eq_some_iff, Option.some.injEq] at picked
    obtain ⟨y, found, rfl⟩ := picked
    exact List.mem_of_getElem? found

/-- Announcing the file name moves only the program counter, the name timer and the
last ack time, and sends nothing but the file name. -/
theorem nameIteration_spec (s : Sender) (job : Job) (now : Timeval) (recv : Option Ack) :
    ∃ phase firstTime startSec startUsec lastAckTime out,
      s.nameIteration job now recv = ({ s with
        phase := phase, firstTime := firstTime, startSec := startSec, startUsec := startUsec
        lastAckTime := lastAckTime }, out) ∧
      (phase = s.phase ∨ phase = .top) ∧ s.lastAckTime ≤ lastAckTime ∧
      ∀ f ∈ out, f = job.nameFrame := by
  unfold Sender.nameIteration
  generalize (s.firstTime || decide (s.timeout < now.elapsed s.startSec s.startUsec)) = due
  cases recv with
  | none => cases due <;> exact ⟨_, _, _, _, _, _, rfl, .inl rfl, le_rfl, by simp⟩
  | some ack =>
    by_cases accepted : s.lastAckTime < ack.time ∧ ack.type = 1 ∧ ack.ackNum = seqLen - 1
    · cases due <;> simp only [Bool.false_eq_true, if_true, if_false, if_pos accepted] <;>
        exact ⟨_, _, _, _, _, _, rfl, .inr rfl, accepted.1.le, by simp⟩
    · cases due <;> simp only [Bool.false_eq_true, if_true, if_false, if_neg accepted] <;>
        exact ⟨_, _, _, _, _, _, rfl, .inl rfl, le_rfl, by simp⟩

/-- Announcing the file name. -/
theorem Joint.name (h : sys.Joint job q) (naming : sys.sender.phase = .naming) (now : Timeval)
    (ack : Option Ack) : (sys.sent (sys.sender.nameIteration job now ack)).Joint job q := by
  obtain ⟨phase, firstTime, startSec, startUsec, lastAckTime, out, changed, phases, later, only⟩ :=
    nameIteration_spec sys.sender job now ack
  obtain ⟨log, acks⟩ := h.acks
  -- the law does not speak of the name timer
  have aligned : Sender.Aligned job.file sys.sndBase q { sys.sender with
      phase := phase, firstTime := firstTime, startSec := startSec, startUsec := startUsec
      lastAckTime := lastAckTime } := h.sender.congr rfl rfl rfl rfl rfl rfl
  rw [changed]
  rw [naming] at phases
  refine h.sent acks aligned le_rfl le_rfl h.below
    (fun offset at_offset => ?_) (fun f member => .inl (only f member))
    (fun entry member newer => acks.fresh entry member (later.trans_lt newer)) (fun left => ?_)
  · rcases phases with bad | bad <;> cases bad.symm.trans at_offset
  · rcases phases with bad | bad <;> cases bad.symm.trans left

/-- The first half of an iteration of the main loop. -/
theorem Joint.poll (h : sys.Joint job q) {ack : Option Ack} (known : ∀ a, ack = some a → a ∈ sys.acks)
    (scan : ℕ → Timeval) (now : Timeval) :
    (sys.sent (sys.sender.poll scan ack now, [])).Inv job := by
  have scanned := h.sender.checkTimeout scan
  obtain ⟨alarmList, same, -⟩ := Sender.checkTimeout_spec scan sys.sender
  have time : (sys.sender.checkTimeout scan).lastAckTime = sys.sender.lastAckTime := by rw [same]
  obtain ⟨log, acks⟩ := h.acks
  cases ack with
  | none =>
    rw [Sender.poll_none]
    generalize sys.sender.checkTimeout scan = s at scanned time ⊢
    have aligned : Sender.Aligned job.file sys.sndBase q { s with phase := .pass 0 } :=
      scanned.congr rfl rfl rfl rfl rfl rfl
    refine ⟨q, h.sent acks aligned le_rfl le_rfl h.below (fun offset at_offset => ?_) (by simp)
      (fun entry member newer => ?_) ?_⟩
    · cases at_offset
      exact ⟨Nat.zero_le _, by decide⟩
    · exact acks.fresh entry member (time ▸ newer)
    · intro bad
      cases bad
  | some ack =>
    -- what the ack handler is given was logged when it was sent
    obtain ⟨entry, member, rfl⟩ : ∃ entry ∈ log, entry.ack = ack := by
      simpa [acks.acks] using known ack rfl
    have valid := acks.valid entry member
    have possible : (sys.sender.checkTimeout scan).lastAckTime < entry.ack.time →
        sys.sndBase ≤ entry.base := fun newer => acks.fresh entry member (time ▸ newer)
    rw [Sender.poll_some]
    generalize sys.sender.checkTimeout scan = s at scanned time possible ⊢
    have result := scanned.handleAck valid.number (valid.bounded.trans h.above) possible now
    obtain ⟨base, q', forward, total, aligned, moved⟩ := result.moved
    refine ⟨q', h.sent acks aligned forward total.ge ?_ (fun offset at_offset => ?_) (by simp)
      (fun other member' newer => ?_) (fun left => ?_)⟩
    · rcases moved with rfl | ⟨-, rfl⟩
      · exact h.below
      · exact valid.bounded
    · rcases result.phase with pass | left
      · rw [pass] at at_offset
        cases at_offset
        exact ⟨Nat.zero_le _, by decide⟩
      · rw [left.1] at at_offset
        cases at_offset
    · -- an ack newer than the one handled was sent after it
      rw [result.lastAckTime, time, max_lt_iff] at newer
      rcases moved with rfl | ⟨-, rfl⟩
      · exact acks.fresh other member' newer.1
      · exact acks.newer member member' newer.2
    · rcases result.phase with pass | ⟨-, whole⟩
      · rw [pass] at left
        cases left
      · have := h.sender.created
        have := valid.bounded
        have := h.above
        omega

/-- One slot of the send pass. -/
theorem Joint.slot (h : sys.Joint job q) {offset : ℕ} (phase : sys.sender.phase = .pass offset)
    (now : Timeval) : (sys.sent (sys.sender.sendSlot job.file now offset)).Inv job := by
  obtain ⟨behind, inside⟩ := h.counter offset phase
  obtain ⟨q', more, result⟩ := h.sender.sendSlot behind inside now
  generalize sys.sender.sendSlot job.file now offset = moved at result ⊢
  obtain ⟨s, out⟩ := moved
  obtain ⟨log, acks⟩ := h.acks
  -- the pass acknowledges nothing, so that the base stays
  refine ⟨q', h.sent acks result.aligned le_rfl (by omega) h.below (fun next at_next => ?_)
    (fun f member => .inr (result.frames f member)) (fun entry member newer => ?_)
    (fun left => ?_)⟩
  · rcases result.phase with top | ⟨pass, bounds⟩
    · rw [top] at at_next
      cases at_next
    · rw [pass] at at_next
      cases at_next
      exact bounds
  · exact acks.fresh entry member (result.lastAckTime ▸ newer)
  · rcases result.phase with top | ⟨pass, -⟩
    · rw [top] at left
      cases left
    · rw [pass] at left
      cases left

/-! ### Moves of the receiver -/

/-- A move of the receiver that writes some chunks and acknowledges the slot before
its window keeps the invariant. -/
theorem Joint.acked (h : sys.Joint job q) {tv : Timeval} (ticks : sys.ticks tv = true)
    {r : Receiver} {ack : Ack} {base : ℕ} (started : r.phase ≠ .naming)
    (buffering : r.Buffering job.file base (sys.sndBase + q)) (advanced : sys.rcvBase ≤ base)
    (number : ack.ackNum = (base + 15) % seqLen) (time : ack.time = tv.micros % 2 ^ 32)
    (closed : r.phase = .data ↔ r.readyExit ≠ 2) :
    (sys.acked tv (r, ack)).Joint job q := by
  have created := h.sender.created
  have window := h.sender.window
  have below := h.below
  have above := buffering.behind
  have unwrapped : unwrap seqLen sys.rcvBase r.laSeq = base := by
    rw [buffering.laSeq]
    apply unwrap_mod advanced
    dsimp only [windowLen, seqLen] at *
    omega
  have base_eq : (sys.acked tv (r, ack)).rcvBase = base := unwrapped
  obtain ⟨log, acks⟩ := h.acks
  refine ⟨h.sender, h.counter, fun _ => base_eq ▸ buffering, fun bad => absurd bad started,
    base_eq ▸ below.trans advanced, base_eq ▸ above, h.frames,
    ⟨_, acks.append ticks unwrapped advanced (below.trans advanced) number time⟩, fun left => ?_,
    closed.trans (by simp [System.acked, started])⟩
  rw [base_eq]
  have := h.left left
  omega

/-- A frame of a chunk, or any other datagram the sender sent, handled in the main
loop: chunks are only appended. -/
theorem Joint.handleFrame (h : sys.Joint job q) (phase : sys.receiver.phase = .data)
    {frame : Frame} (member : frame ∈ sys.frames) :
    ∃ m, Receiver.FrameResult job.file sys.rcvBase (sys.sndBase + q) m
        (sys.receiver.handleFrame frame) ∧
      (sys.rcvBase ≤ job.file.lastChunk → (sys.rcvBase + m = job.file.lastChunk + 1 ↔
        sys.receiver.CompletesFile job.file frame)) := by
  have buffering := h.receiver (h.closed.mp phase).1
  rcases h.frames frame member with rfl | ⟨j, created, rfl⟩
  · -- the file name has packet id 0 and is ignored
    have ignored : sys.receiver.handleFrame job.nameFrame = sys.receiver :=
      if_neg fun bad => absurd bad.2 (Nat.not_lt_zero _)
    rw [ignored]
    exact ⟨0, ⟨Nat.zero_le _, buffering, fun _ _ => by omega⟩,
      fun _ => iff_of_false (by omega) fun whole => absurd whole.fresh (Nat.not_lt_zero _)⟩
  · refine buffering.handleFrame created ?_ h.sender.created
    have := h.below
    have := h.sender.window
    omega

/-- Taking a datagram as the file name. -/
theorem Joint.accept (h : sys.Joint job q) (naming : sys.receiver.phase = .naming) {tv : Timeval}
    (ticks : sys.ticks tv = true) (frame : Frame) :
    (sys.acked tv (sys.receiver.nameIteration frame tv)).Joint job q := by
  obtain ⟨start, base⟩ := h.naming naming
  rw [start]
  have started : (Receiver.start.nameIteration frame tv).1.phase ≠ .naming := by
    simp [Receiver.nameIteration]
  refine h.acked ticks started (Receiver.Buffering.start job.file _ frame tv) base.le rfl
    (Ack.stamp_time _ tv) ?_
  simp [Receiver.start]

/-- An iteration of the receiver's main loop. -/
theorem Joint.receive (h : sys.Joint job q) (phase : sys.receiver.phase = .data) {tv : Timeval}
    (ticks : sys.ticks tv = true) {recv : Option Frame}
    (known : ∀ f, recv = some f → f ∈ sys.frames) :
    (sys.acked tv (sys.receiver.iteration recv tv)).Joint job q := by
  obtain ⟨m, result⟩ : ∃ m, Receiver.FrameResult job.file sys.rcvBase (sys.sndBase + q) m
      (sys.receiver.handle recv) := by
    cases recv with
    | none =>
      exact ⟨0, Nat.zero_le _, h.receiver (h.closed.mp phase).1, fun _ _ => by omega⟩
    | some frame =>
      obtain ⟨m, result, -⟩ := h.handleFrame phase (known frame rfl)
      exact ⟨m, result⟩
  have number : (Ack.build (sys.receiver.handle recv).laSeq tv).ackNum =
      (sys.rcvBase + m + 15) % seqLen := by
    rw [result.buffering.laSeq, Ack.build_ackNum]
  refine h.acked ticks ?_ (result.buffering.setPhase _) (Nat.le_add_right _ m) number
    (Ack.build_time _ tv) ?_
  all_goals
    split_ifs <;> simp_all

/-- One of the acks after the file is closed. -/
theorem Joint.tail (h : sys.Joint job q) {remaining : ℕ}
    (phase : sys.receiver.phase = .tail (remaining + 1)) {tv : Timeval}
    (ticks : sys.ticks tv = true) :
    (sys.acked tv (sys.receiver.tailIteration remaining tv)).Joint job q := by
  have started : sys.receiver.phase ≠ .naming := by simp [phase]
  have buffering := h.receiver started
  have exited : sys.receiver.readyExit = 2 := by
    have := h.closed
    simp_all
  have number : (Ack.build sys.receiver.laSeq tv).ackNum = (sys.rcvBase + 15) % seqLen := by
    rw [buffering.laSeq, Ack.build_ackNum]
  refine h.acked ticks (by simp) (buffering.setPhase _) le_rfl number (Ack.build_time _ tv) ?_
  simp [exited]

/-- What a poll returns was sent before. -/
theorem known_of_pick {α : Type*} {sent : List α} {recv : Option ℕ} {polled : Option α}
    (picked : pick sent recv = some polled) : ∀ x, polled = some x → x ∈ sent := by
  rintro x rfl
  exact mem_of_pick picked

/-- Every step of either program keeps the invariant. -/
theorem Inv.step {t : System} {a : Action} (h : sys.Inv job) (next : step job sys a = some t) :
    t.Inv job := by
  obtain ⟨q, joint⟩ := h
  obtain ⟨ticks, next⟩ := step_eq_some.mp next
  cases a with
  | name now recv =>
    simp only [System.move, Option.ite_none_right_eq_some, Option.map_eq_some_iff] at next
    obtain ⟨naming, ack, -, rfl⟩ := next
    exact ⟨q, joint.name naming now ack⟩
  | poll scan recv now =>
    simp only [System.move, Option.ite_none_right_eq_some, Option.map_eq_some_iff] at next
    obtain ⟨-, ack, picked, rfl⟩ := next
    exact joint.poll (known_of_pick picked) scan now
  | slot now =>
    simp only [System.move] at next
    split at next
    next offset phase =>
      cases next
      exact joint.slot phase now
    next => cases next
  | accept recv tv =>
    simp only [System.move, Option.ite_none_right_eq_some, Option.map_eq_some_iff] at next
    obtain ⟨naming, frame, -, rfl⟩ := next
    exact ⟨q, joint.accept naming ticks frame⟩
  | receive recv tv =>
    simp only [System.move, Option.ite_none_right_eq_some, Option.map_eq_some_iff] at next
    obtain ⟨phase, frame, picked, rfl⟩ := next
    exact ⟨q, joint.receive phase ticks (known_of_pick picked)⟩
  | tail tv =>
    simp only [System.move] at next
    split at next
    next remaining phase =>
      cases next
      exact ⟨q, joint.tail phase ticks⟩
    next => cases next

/-- The invariant holds in every state a transfer can reach. -/
theorem Reaches.inv (reach : Reaches job sys) : sys.Inv job :=
  reach.invariant (fun _ ⟨clock, same⟩ => same ▸ Inv.start job clock) fun _ _ _ inv next =>
    inv.step next

end System

end ComputerNetworks.Transfer
