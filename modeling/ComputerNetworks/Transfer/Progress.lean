import ComputerNetworks.Lib.Progress
import ComputerNetworks.Transfer.Safety
import ComputerNetworks.Transfer.Timeout

/-!
# Progress of a transfer

What the two programs can do by themselves when the network no longer interferes: the receiver
acknowledges, the sender takes a fresh ack, times its first slot out and sends it again, and
the receiver writes the chunk. Each is a short run, and says what it leaves alone.
-/

namespace ComputerNetworks.Transfer

open Lib

namespace Sender

variable {s : Sender} {bound : ℕ}

theorem nextTimeout_le (rtt : ℤ) : nextTimeout rtt ≤ 5000 := by
  rcases le_total 0 rtt with nonneg | negative
  · exact (Timing.nextTimeout_inRange nonneg).2
  · have low : 0 ≤ (-(11 * rtt)).tdiv 10 := Int.tdiv_nonneg (by omega) (by decide)
    rw [Int.neg_tdiv] at low
    unfold nextTimeout
    split_ifs <;> omega

/-- The timeout never exceeds 5 ms. -/
theorem poll_timeout_le (le : s.timeout ≤ 5000) (scan : ℕ → Timeval) (ack : Option Ack) (now : Timeval) :
    (s.poll scan ack now).timeout ≤ 5000 := by
  obtain ⟨alarmList, scanned, -⟩ := checkTimeout_spec scan s
  have same : (s.checkTimeout scan).timeout = s.timeout := by rw [scanned]
  cases ack with
  | none =>
    rw [poll_none]
    generalize s.checkTimeout scan = u at same ⊢
    exact same.trans_le le
  | some ack =>
    rw [poll_some, handleAck_timeout, same]
    cases (s.checkTimeout scan).newRtt now ack with
    | none => exact le
    | some rtt => exact nextTimeout_le rtt

/-- The last stamp taken is that of an ack. -/
theorem poll_lastAckTime_le (le : s.lastAckTime ≤ bound) (scan : ℕ → Timeval) {ack : Option Ack}
    (stamped : ∀ a, ack = some a → a.time ≤ bound) (now : Timeval) :
    (s.poll scan ack now).lastAckTime ≤ bound := by
  have same := checkTimeout_lastAckTime scan s
  cases ack with
  | none =>
    rw [poll_none]
    generalize s.checkTimeout scan = u at same ⊢
    exact same.trans_le le
  | some ack =>
    rw [poll_some, handleAck_lastAckTime, same]
    split_ifs
    · exact stamped ack rfl
    · exact le

theorem nameIteration_lastAckTime_le (le : s.lastAckTime ≤ bound) (job : Job) (now : Timeval)
    {ack : Option Ack} (stamped : ∀ a, ack = some a → a.time ≤ bound) :
    (s.nameIteration job now ack).1.lastAckTime ≤ bound := by
  unfold nameIteration
  dsimp only
  cases ack with
  | none =>
    dsimp only
    split_ifs <;> exact le
  | some ack =>
    have at_most := stamped ack rfl
    dsimp only
    split_ifs <;> assumption

theorem release_lastWindow (ackNum : ℕ) (s : Sender) : (s.release ackNum).lastWindow = s.lastWindow := by
  refine List.foldlRecOn (motive := fun t : Sender => t.lastWindow = s.lastWindow) _ _ rfl
    fun t same j _ => ?_
  unfold releaseSlot
  split_ifs <;> exact same

/-- Acks do not change which chunk is the last one. -/
theorem poll_lastWindow (scan : ℕ → Timeval) (ack : Option Ack) (now : Timeval) (s : Sender) :
    (s.poll scan ack now).lastWindow = s.lastWindow := by
  obtain ⟨alarmList, scanned, -⟩ := checkTimeout_spec scan s
  have same : (s.checkTimeout scan).lastWindow = s.lastWindow := by rw [scanned]
  cases ack with
  | none =>
    rw [poll_none]
    generalize s.checkTimeout scan = u at same ⊢
    exact same
  | some ack =>
    rw [poll_some]
    generalize s.checkTimeout scan = u at same ⊢
    unfold handleAck
    dsimp only
    split_ifs
    · exact same
    · exact same
    · exact (release_lastWindow ack.ackNum _).trans same
    · exact same
    · exact same

theorem poll_phase_ne (scan : ℕ → Timeval) (ack : Option Ack) (now : Timeval) :
    (s.poll scan ack now).phase ≠ .naming := by
  cases ack with
  | none => exact fun bad => by cases bad
  | some ack =>
    rw [poll_some]
    unfold handleAck
    dsimp only
    split_ifs <;> exact fun bad => by cases bad

end Sender

namespace System

variable {job : Job} {q : ℕ} {sys t : System}

/-- What the invariant of a transfer leaves open: the last stamp taken is not ahead of the
receiver's clock, the timeout is short, and the loops about the file name come first. -/
structure Lively (sys : System) : Prop where
  stamped : sys.sender.lastAckTime ≤ sys.clock % 2 ^ 32
  patient : sys.sender.timeout ≤ 5000
  named : sys.sender.phase = .naming → sys.sender.root = [] ∧ sys.sndBase = 0
  silent : sys.receiver.phase = .naming → sys.sender.phase = .naming ∧ sys.acks = []

theorem Joint.ack_time (h : sys.Joint job q) {ack : Ack} (member : ack ∈ sys.acks) :
    ack.time ≤ sys.clock % 2 ^ 32 := by
  obtain ⟨log, acks⟩ := h.acks
  rw [acks.acks] at member
  obtain ⟨entry, logged, rfl⟩ := List.mem_map.mp member
  exact (acks.valid entry logged).stamped

/-- The clock goes on within its epoch. -/
theorem ticks_le {tv : Timeval} (ticks : sys.ticks tv = true) :
    sys.clock % 2 ^ 32 ≤ tv.micros % 2 ^ 32 := by
  simp only [System.ticks, decide_eq_true_eq] at ticks
  obtain ⟨later, epoch⟩ := ticks
  omega

theorem Lively.start (clock : ℕ) : (start clock).Lively where
  stamped := Nat.zero_le _
  patient := le_rfl
  named _ := ⟨rfl, rfl⟩
  silent _ := ⟨rfl, rfl⟩

/-- The sender's side of the law, when only the sender has moved. -/
theorem Lively.sent (l : sys.Lively) {result : Sender × List Frame}
    (stamped : result.1.lastAckTime ≤ sys.clock % 2 ^ 32) (patient : result.1.timeout ≤ 5000)
    (named : result.1.phase = .naming →
      result.1.root = [] ∧ unwrap seqLen sys.sndBase result.1.laSeq = 0)
    (silent : sys.receiver.phase = .naming → result.1.phase = .naming) :
    (sys.sent result).Lively :=
  ⟨stamped, patient, named, fun naming => ⟨silent naming, (l.silent naming).2⟩⟩

/-- And when the receiver has. -/
theorem Lively.acked (l : sys.Lively) {tv : Timeval} (ticks : sys.ticks tv = true)
    {result : Receiver × Ack} (started : result.1.phase ≠ .naming) : (sys.acked tv result).Lively :=
  ⟨l.stamped.trans (ticks_le ticks), l.patient, l.named, fun naming => absurd naming started⟩

theorem Lively.step (l : sys.Lively) (h : sys.Inv job) {a : Action} (next : step job sys a = some t) :
    t.Lively := by
  obtain ⟨q, joint⟩ := h
  obtain ⟨ticks, next⟩ := step_eq_some.mp next
  cases a with
  | name now recv =>
    simp only [move, Option.ite_none_right_eq_some, Option.map_eq_some_iff] at next
    obtain ⟨naming, ack, picked, rfl⟩ := next
    have known : ∀ a, ack = some a → a ∈ sys.acks := known_of_pick picked
    obtain ⟨root, base⟩ := l.named naming
    obtain ⟨phase, firstTime, startSec, startUsec, lastAckTime, out, changed, phases, -⟩ :=
      nameIteration_spec sys.sender job now ack
    refine l.sent (Sender.nameIteration_lastAckTime_le l.stamped job now
      fun a same => joint.ack_time (known a same)) ?_ (fun _ => ?_) fun waits => ?_
    · rw [(Sender.sameTimers_nameIteration job now ack sys.sender).2]
      exact l.patient
    · rw [changed]
      refine ⟨root, ?_⟩
      rw [joint.sender.laSeq, base]
      rfl
    · -- without an ack the name is announced again
      have none_ : ack = none := by
        cases ack with
        | none => rfl
        | some a =>
          have inside := known a rfl
          rw [(l.silent waits).2] at inside
          cases inside
      subst none_
      unfold Sender.nameIteration
      dsimp only
      split_ifs <;> exact naming
  | poll scan recv now =>
    simp only [move, Option.ite_none_right_eq_some, Option.map_eq_some_iff] at next
    obtain ⟨top, ack, picked, rfl⟩ := next
    refine l.sent (Sender.poll_lastAckTime_le l.stamped scan
      (fun a same => joint.ack_time (known_of_pick picked a same)) now)
      (Sender.poll_timeout_le l.patient scan ack now)
      (fun naming => absurd naming (Sender.poll_phase_ne scan ack now)) fun waits => ?_
    rw [(l.silent waits).1] at top
    cases top
  | slot now =>
    simp only [move] at next
    split at next
    next offset phase =>
      cases next
      obtain ⟨behind, inside⟩ := joint.counter offset phase
      obtain ⟨q', -, result⟩ := joint.sender.sendSlot behind inside now
      obtain ⟨stamp, timeout⟩ := Sender.sendSlot_frame job.file now offset sys.sender
      refine l.sent (stamp.trans_le l.stamped) (timeout.trans_le l.patient) (fun naming => ?_)
        fun waits => ?_
      · rcases result.phase with top | ⟨pass, -⟩
        · cases top.symm.trans naming
        · cases pass.symm.trans naming
      · cases phase.symm.trans (l.silent waits).1
    next => cases next
  | accept recv tv =>
    simp only [move, Option.ite_none_right_eq_some, Option.map_eq_some_iff] at next
    obtain ⟨-, frame, -, rfl⟩ := next
    exact l.acked ticks (by simp [Receiver.nameIteration])
  | receive recv tv =>
    simp only [move, Option.ite_none_right_eq_some, Option.map_eq_some_iff] at next
    obtain ⟨-, frame, -, rfl⟩ := next
    refine l.acked ticks ?_
    unfold Receiver.iteration
    dsimp only
    split_ifs <;> exact fun bad => by cases bad
  | tail tv =>
    simp only [move] at next
    split at next
    next remaining phase =>
      cases next
      exact l.acked ticks fun bad => by cases bad
    next => cases next

/-! ### The receiver's moves -/

/-- The clock reading one microsecond later. -/
def tick (sys : System) : Timeval := Sender.clockAt (sys.clock + 1)

/-- There is time for `n` more readings in this epoch of the clock. -/
def HasTime (n : ℕ) (sys : System) : Prop := sys.clock % 2 ^ 32 + n < 2 ^ 32

theorem ticks_tick (time : sys.HasTime 1) : sys.ticks sys.tick = true := by
  unfold HasTime at time
  simp only [System.ticks, tick, Sender.clockAt_micros, decide_eq_true_eq]
  omega

/-- Behind `c` readings there is less time. -/
theorem HasTime.later {n c : ℕ} (time : sys.HasTime (n + c)) (clock : t.clock = sys.clock + c) :
    t.HasTime n := by
  unfold HasTime at *
  rw [clock]
  omega

theorem HasTime.mono {n m : ℕ} (time : sys.HasTime n) (le : m ≤ n) : sys.HasTime m := by
  unfold HasTime at *
  omega

/-- A step that moves `la_seq` by some slots moves the receiver's window by as many. -/
theorem rcvBase_acked (tv : Timeval) {result : Receiver × Ack} {m : ℕ}
    (laSeq : result.1.laSeq = (sys.rcvBase + m) % seqLen) (few : m ≤ windowLen) :
    (sys.acked tv result).rcvBase = sys.rcvBase + m := by
  change unwrap seqLen sys.rcvBase _ = _
  rw [laSeq]
  refine unwrap_mod (Nat.le_add_right _ _) ?_
  dsimp only [seqLen, windowLen] at *
  omega

/-- The receiver has sent a fresh ack of all it has written, and done nothing else. -/
structure Acknowledged (sys t : System) (ack : Ack) : Prop where
  sender : t.sender = sys.sender
  frames : t.frames = sys.frames
  sndBase : t.sndBase = sys.sndBase
  rcvBase : t.rcvBase = sys.rcvBase
  acks : t.acks = sys.acks ++ [ack]
  clock : t.clock = sys.clock + 1
  readyExit : t.receiver.readyExit = sys.receiver.readyExit
  received : t.receiver.received = sys.receiver.received
  phase : sys.receiver.phase = .data → t.receiver.phase = .data
  number : ack.ackNum = (sys.rcvBase + 15) % seqLen
  type : ack.type = 1
  fresh : sys.sender.lastAckTime < ack.time

theorem exists_ack (h : sys.Joint job q) (l : sys.Lively) (time : sys.HasTime 1)
    (going : sys.receiver.phase = .data ∨ ∃ n, sys.receiver.phase = .tail (n + 1)) :
    ∃ t ack, Leads (step job) sys t ∧ Acknowledged sys t ack := by
  have ticks := ticks_tick time
  have laSeq := h.receiver_laSeq
  have fresh : sys.sender.lastAckTime < (sys.clock + 1) % 2 ^ 32 := by
    have stamped := l.stamped
    unfold HasTime at time
    omega
  have number : (Ack.build sys.receiver.laSeq sys.tick).ackNum = (sys.rcvBase + 15) % seqLen := by
    rw [laSeq, Ack.build_ackNum]
  have stamp : (Ack.build sys.receiver.laSeq sys.tick).time = (sys.clock + 1) % 2 ^ 32 := by
    rw [Ack.build_time, tick, Sender.clockAt_micros]
  rcases going with data | ⟨n, tail⟩
  · have open_ : sys.receiver.readyExit ≠ 2 := (h.closed.mp data).2
    have next : step job sys (.receive none sys.tick) =
        some (sys.acked sys.tick (sys.receiver.iteration none sys.tick)) := by
      simp [System.step, onTime, move, data, ticks, pick]
    refine ⟨_, _, .single next, rfl, rfl, rfl, rcvBase_acked _ laSeq (Nat.zero_le _), rfl, Sender.clockAt_micros _, rfl, rfl, fun _ => ?_,
      number, rfl, stamp ▸ fresh⟩
    exact if_neg open_
  · have next : step job sys (.tail sys.tick) =
        some (sys.acked sys.tick (sys.receiver.tailIteration n sys.tick)) := by
      simp [System.step, onTime, move, tail, ticks]
    refine ⟨_, _, .single next, rfl, rfl, rfl, rcvBase_acked _ laSeq (Nat.zero_le _), rfl, Sender.clockAt_micros _, rfl, rfl, fun data => ?_,
      number, rfl, stamp ▸ fresh⟩
    rw [tail] at data
    cases data

end System

namespace Receiver

variable {file : RegularFile} {base sent : ℕ} {r : Receiver}

theorem runLength_pos {received : ℕ → Bool} {i : ℕ} (marked : received (i % seqLen) = true) (n : ℕ) :
    0 < runLength received i (n + 1) := by
  rw [runLength, if_pos marked]
  exact Nat.succ_pos _

/-- The first missing chunk is buffered, and the run that begins with it is written. -/
theorem Buffering.handleFrame_first (h : Buffering file base sent r) (small : base + 1 < 2 ^ 32) :
    ∃ u : Receiver, u.laSeq = base % seqLen ∧
      u.received = Function.update r.received (base % seqLen) true ∧
      r.handleFrame (file.frame base) = (u.writeRun (runLength u.received (base % seqLen) windowLen) 0).advance
        (runLength u.received (base % seqLen) windowLen) := by
  have type : (file.frame base).type = 2 ∨ (file.frame base).type = 4 := by
    simp only [RegularFile.frame, RegularFile.frameType]
    split_ifs <;> simp
  have fresh : r.lastId < (file.frame base).packetId := by
    rw [h.lastId, RegularFile.frame, Nat.mod_eq_of_lt small]
    exact Nat.lt_succ_self base
  obtain ⟨laSeq, received⟩ : (r.announce (file.frame base)).laSeq = r.laSeq ∧
      (r.announce (file.frame base)).received = r.received := by
    unfold Receiver.announce
    split_ifs <;> exact ⟨rfl, rfl⟩
  rw [h.laSeq] at laSeq
  have inside : between (base % seqLen) ((base % seqLen + windowLen - 1) % seqLen) (base % seqLen) = true := by
    unfold between
    dsimp only [seqLen, windowLen]
    split_ifs <;> simp only [decide_eq_true_eq] <;> omega
  have handled : r.handleFrame (file.frame base) = (r.announce (file.frame base)).accept (file.frame base) := by
    unfold Receiver.handleFrame
    rw [if_pos ⟨type, fresh⟩]
    dsimp only
    rw [laSeq, received]
    exact if_pos ⟨inside, h.waiting⟩
  have counted : ((r.announce (file.frame base)).buffer (file.frame base)).countRun (file.frame base).seqNum =
      runLength ((r.announce (file.frame base)).buffer (file.frame base)).received (base % seqLen) windowLen := by
    unfold Receiver.countRun
    rw [show ((r.announce (file.frame base)).buffer (file.frame base)).laSeq = base % seqLen from laSeq]
    exact if_neg (not_not.mpr rfl)
  refine ⟨(r.announce (file.frame base)).buffer (file.frame base), laSeq, ?_, ?_⟩
  · rw [Receiver.buffer, received]
    rfl
  · rw [handled, Receiver.accept, counted]

/-- The first missing chunk is written at once. -/
theorem Buffering.handleFrame_advances (h : Buffering file base sent r) (small : base + 1 < 2 ^ 32) :
    (r.handleFrame (file.frame base)).laSeq ≠ r.laSeq := by
  obtain ⟨u, laSeq, received, handled⟩ := h.handleFrame_first small
  have marked : u.received (base % seqLen % seqLen) = true := by
    rw [received, Nat.mod_mod]
    exact Function.update_self ..
  have positive : 0 < runLength u.received (base % seqLen) windowLen := runLength_pos marked 7
  have few := (runLength_spec u.received (base % seqLen) windowLen).1
  rw [handled, h.laSeq]
  generalize runLength u.received (base % seqLen) windowLen = count at positive few
  simp only [Receiver.advance]
  rw [(writeRun_frame _ _ _).1, laSeq]
  dsimp only [seqLen, windowLen] at *
  omega

/-- When nothing is buffered it is the only chunk written, and nothing is buffered then. -/
theorem Buffering.handleFrame_alone (h : Buffering file base sent r) (small : base + 1 < 2 ^ 32)
    (alone : ∀ k, r.received k = false) :
    (r.handleFrame (file.frame base)).laSeq = (base + 1) % seqLen ∧
      ∀ k, (r.handleFrame (file.frame base)).received k = false := by
  obtain ⟨u, laSeq, received, handled⟩ := h.handleFrame_first small
  have marked : u.received (base % seqLen % seqLen) = true := by
    rw [received, Nat.mod_mod]
    exact Function.update_self ..
  have free : u.received ((base % seqLen + 1) % seqLen) = false := by
    rw [received, Function.update_of_ne]
    · exact alone _
    · dsimp only [seqLen]
      omega
  have one : runLength u.received (base % seqLen) windowLen = 1 := by
    rw [show windowLen = 6 + 1 + 1 from rfl, runLength, if_pos marked, runLength, free]
    rfl
  rw [handled, one]
  refine ⟨?_, fun k => ?_⟩
  · simp only [Receiver.advance]
    rw [(writeRun_frame _ _ _).1, laSeq, Nat.mod_add_mod]
  · change Function.update u.received ((u.laSeq + 0) % seqLen) false k = false
    rw [laSeq, received, Nat.add_zero, Nat.mod_mod]
    by_cases here : k = base % seqLen
    · rw [here]
      exact Function.update_self ..
    · rw [Function.update_of_ne here, Function.update_of_ne here]
      exact alone k

end Receiver

namespace System

variable {job : Job} {q : ℕ} {sys t : System}

/-- The receiver gets the first missing chunk, and writes it. -/
theorem exists_deliver (h : sys.Joint job q) (phase : sys.receiver.phase = .data) (time : sys.HasTime 1)
    (small : sys.rcvBase + 1 < 2 ^ 32) (member : job.file.frame sys.rcvBase ∈ sys.frames) :
    ∃ t, Leads (step job) sys t ∧ t.sender = sys.sender ∧ t.clock = sys.clock + 1 ∧
      sys.rcvBase < t.rcvBase ∧
      (t.receiver.phase = if t.receiver.readyExit = 2 then .tail 400 else .data) ∧
      ((∀ k, sys.receiver.received k = false) →
        t.rcvBase = sys.rcvBase + 1 ∧ ∀ k, t.receiver.received k = false) := by
  obtain ⟨k, inside, found⟩ := List.getElem_of_mem member
  have ticks := ticks_tick time
  have at_k : sys.frames[k]? = some (job.file.frame sys.rcvBase) :=
    found ▸ List.getElem?_eq_getElem inside
  have next : step job sys (.receive (some k) sys.tick) = some (sys.acked sys.tick
      (sys.receiver.iteration (some (job.file.frame sys.rcvBase)) sys.tick)) := by
    simp [System.step, onTime, move, phase, ticks, pick, at_k]
  have buffering := h.receiver (h.closed.mp phase).1
  obtain ⟨m, result, -⟩ := h.handleFrame phase member
  have advances := buffering.handleFrame_advances small
  have moved : (sys.receiver.handleFrame (job.file.frame sys.rcvBase)).laSeq = (sys.rcvBase + m) % seqLen :=
    result.buffering.laSeq
  have some_ : m ≠ 0 := by
    rintro rfl
    exact advances (moved.trans h.receiver_laSeq.symm)
  refine ⟨_, .single next, rfl, Sender.clockAt_micros _, ?_, rfl, fun alone => ?_⟩
  · rw [rcvBase_acked sys.tick moved result.bound]
    omega
  · obtain ⟨one, still⟩ := buffering.handleFrame_alone small alone
    exact ⟨rcvBase_acked sys.tick one (by decide), still⟩

end System

/-! ### The sender's moves -/

namespace Sender

variable {file : RegularFile} {base q : ℕ} {s : Sender}

/-- Any two numbers of an `int` are some clock reading apart. -/
theorem exists_elapsed (sec usec : ℤ) : ∃ now : Timeval, now.elapsed sec usec = 5001 := by
  -- the reading 5001 microseconds later, reduced to one that is not negative
  refine ⟨clockAt ((sec * 1000000 + usec + 5001) % 2 ^ 32).toNat, ?_⟩
  have nonneg : 0 ≤ (sec * 1000000 + usec + 5001) % 2 ^ 32 := Int.emod_nonneg _ (by decide)
  have micros := clockAt_micros ((sec * 1000000 + usec + 5001) % 2 ^ 32).toNat
  generalize clockAt ((sec * 1000000 + usec + 5001) % 2 ^ 32).toNat = now at micros
  have split := Int.emod_add_mul_ediv (sec * 1000000 + usec + 5001) (2 ^ 32)
  have apart : ((now.sec : ℤ) - sec) * 1000000 + ((now.usec : ℤ) - usec) =
      5001 + (2 ^ 32 : ℕ) * -((sec * 1000000 + usec + 5001) / 2 ^ 32) := by
    unfold Timeval.micros at micros
    push_cast
    omega
  rw [Timeval.elapsed, Timeval.toInt32, apart, Int.add_mul_bmod_self_left]
  rfl

/-- A timeout scan at the right time leaves the first slot of the window timed out or free. -/
theorem exists_due (patient : s.timeout ≤ 5000) : ∃ now,
    ((s.checkTimeout fun _ => now).alarmList (s.laSeq % seqLen)).isSet ≠ .waiting := by
  obtain ⟨now, elapsed⟩ := exists_elapsed (s.alarmList (s.laSeq % seqLen)).tvSec
    (s.alarmList (s.laSeq % seqLen)).tvUsec
  refine ⟨now, ?_⟩
  have kept : ∀ (t : Sender) k, (t.alarmList (s.laSeq % seqLen)).isSet ≠ .waiting →
      ((t.scanSlot k now).alarmList (s.laSeq % seqLen)).isSet ≠ .waiting := by
    intro t k set
    unfold scanSlot
    dsimp only
    split_ifs
    · by_cases here : s.laSeq % seqLen = k
      · subst here
        simp [Alarm.expire]
      · dsimp only
        rwa [Function.update_of_ne here]
    · exact set
  have first : ((s.scanSlot (s.laSeq % seqLen) now).alarmList (s.laSeq % seqLen)).isSet ≠ .waiting := by
    unfold scanSlot
    dsimp only
    rw [elapsed]
    split_ifs with due
    · simp [Alarm.expire]
    · intro waiting
      exact due ⟨by rw [waiting]; decide, by omega⟩
  rw [checkTimeout, show windowLen = 7 + 1 from rfl, List.range_succ_eq_map, List.foldl_cons,
    Nat.add_zero]
  exact List.foldlRecOn (motive := fun t => (t.alarmList (s.laSeq % seqLen)).isSet ≠ .waiting) _ _ first
    fun t set j _ => kept t _ set

/-- A fresh ack of chunks that are outstanding moves the window behind them. -/
theorem Aligned.handleAck_moves (h : Aligned file base q s) {ack : Ack} {acked : ℕ}
    (number : ack.ackNum = (acked + 15) % seqLen) (low : base ≤ acked) (sent : acked ≤ base + q)
    (unfinished : acked ≤ file.lastChunk) (fresh : s.lastAckTime < ack.time) (now : Timeval) :
    (s.handleAck now ack).laSeq = acked % seqLen ∧ (s.handleAck now ack).phase = .pass 0 := by
  have valid : ¬ seqLen ≤ ack.ackNum := by
    rw [number]
    exact not_le.mpr (Nat.mod_lt _ (by decide))
  unfold Sender.handleAck
  rw [if_pos fresh]
  simp only [if_neg valid]
  rcases Nat.eq_or_lt_of_le low with rfl | advanced
  · rw [number, h.outside_window]
    exact ⟨h.laSeq, rfl⟩
  · rw [number, h.inside_window advanced sent, if_pos rfl, if_neg]
    · refine ⟨?_, rfl⟩
      change ((acked + 15) % seqLen + 1) % seqLen = acked % seqLen
      dsimp only [seqLen]
      omega
    · intro whole
      have all := (h.ackNum_eq_lastWindow advanced sent).mp whole
      omega

/-- A fresh ack of the whole file ends the main loop. -/
theorem Aligned.handleAck_leaves (h : Aligned file base q s) {ack : Ack}
    (number : ack.ackNum = (file.lastChunk + 1 + 15) % seqLen) (all : base + q = file.lastChunk + 1)
    (fresh : s.lastAckTime < ack.time) (now : Timeval) : (s.handleAck now ack).phase = .left := by
  have valid : ¬ seqLen ≤ ack.ackNum := by
    rw [number]
    exact not_le.mpr (Nat.mod_lt _ (by decide))
  have advanced : base < file.lastChunk + 1 := Nat.lt_succ_of_le h.unacked
  have whole := (h.ackNum_eq_lastWindow advanced all.ge).mpr rfl
  unfold Sender.handleAck
  rw [if_pos fresh]
  simp only [if_neg valid]
  rw [number, h.inside_window advanced all.ge, if_pos rfl, if_pos whole]

/-- A send pass ends when the window is full or the last chunk is in it. -/
theorem Aligned.sendSlot_top (h : Aligned file base q s) {offset : ℕ} (behind : offset ≤ q)
    (inside : offset < windowLen) (now : Timeval) (top : (s.sendSlot file now offset).1.phase = .top) :
    ∃ q', SlotResult file base offset q' s (s.sendSlot file now offset).1 (s.sendSlot file now offset).2 ∧
      (q' = windowLen ∨ base + q' = file.lastChunk + 1) := by
  obtain ⟨q', move, result⟩ := h.slotMove behind inside now
  refine ⟨q', result, ?_⟩
  have created := result.aligned.created
  have window := result.aligned.window
  by_cases stop : s.lastWindow ≠ -1 ∧ s.lastWindow < ((s.laSeq + offset : ℕ) : ℤ)
  · have last := h.lastWindow
    have more := move.le
    split_ifs at last with all
    · exact .inr (by omega)
    · exact absurd last stop.1
  · -- the pass was not cut, so that this was its last slot
    have counter : (s.sendSlot file now offset).1.phase =
        if offset + 1 < windowLen then .pass (offset + 1) else .top := by
      unfold Sender.sendSlot
      dsimp only
      rw [if_neg stop]
      cases (s.alarmList ((s.laSeq + offset) % seqLen)).isSet with
      | waiting => rfl
      | timedOut =>
        dsimp only
        cases getK s.root offset <;> rfl
      | unset => rfl
    have final : ¬ offset + 1 < windowLen := by
      intro more
      rw [counter, if_pos more] at top
      cases top
    have armed : offset < q' := by
      generalize (s.sendSlot file now offset).2 = out at move
      cases move with
      | quiet creates =>
        rw [Sender.creates, decide_eq_false stop, Bool.not_false, Bool.true_and, decide_eq_false_iff_not,
          h.laSeq, Nat.mod_add_mod] at creates
        exact (h.isSet offset (inside.trans (by decide))).mp creates
      | again creates sent => exact sent
      | next creates here more => omega
    exact .inl (by omega)

/-- The send pass sends the first slot of the window unless it is waiting or the pass is cut. -/
theorem Aligned.sendSlot_first (h : Aligned file base q s) (now : Timeval)
    (go : ¬ (s.lastWindow ≠ -1 ∧ s.lastWindow < ((s.laSeq + 0 : ℕ) : ℤ)))
    (due : (s.alarmList ((s.laSeq + 0) % seqLen)).isSet ≠ .waiting) :
    (s.sendSlot file now 0).2 = [file.frame base] := by
  obtain ⟨q', move, -⟩ := h.slotMove (Nat.zero_le q) (by decide) now
  have sends : (s.sendSlot file now 0).2 ≠ [] := by
    have slot : (s.laSeq + 0) % seqLen = (base + 0) % seqLen := by rw [h.laSeq, Nat.mod_add_mod]
    have armed := h.isSet 0 (by decide)
    rw [← slot] at armed
    unfold Sender.sendSlot
    dsimp only
    rw [if_neg go]
    cases flag : (s.alarmList ((s.laSeq + 0) % seqLen)).isSet with
    | waiting => exact absurd flag due
    | timedOut =>
      have some_ : 0 < q := armed.mp (by rw [flag]; decide)
      have node : getK s.root 0 = some (file.node (base + 0)) := by simp [h.root, some_]
      rw [node]
      exact List.cons_ne_nil _ _
    | unset => exact List.cons_ne_nil _ _
  generalize (s.sendSlot file now 0).2 = out at move sends
  cases move with
  | quiet => exact absurd rfl sends
  | again => rfl
  | next => rfl

end Sender

namespace System

variable {job : Job} {q : ℕ} {sys t u : System}

/-- The sender may have moved, and nothing else. -/
structure Sends (sys t : System) : Prop where
  receiver : t.receiver = sys.receiver
  acks : t.acks = sys.acks
  clock : t.clock = sys.clock
  rcvBase : t.rcvBase = sys.rcvBase
  frames : ∃ out, t.frames = sys.frames ++ out

theorem Sends.refl (sys : System) : Sends sys sys :=
  ⟨rfl, rfl, rfl, rfl, [], (List.append_nil _).symm⟩

theorem Sends.trans (first : Sends sys t) (rest : Sends t u) : Sends sys u where
  receiver := rest.receiver.trans first.receiver
  acks := rest.acks.trans first.acks
  clock := rest.clock.trans first.clock
  rcvBase := rest.rcvBase.trans first.rcvBase
  frames := by
    obtain ⟨out, frames⟩ := first.frames
    obtain ⟨out', frames'⟩ := rest.frames
    exact ⟨out ++ out', by rw [frames', frames, List.append_assoc]⟩

theorem sends_sent (sys : System) (result : Sender × List Frame) : Sends sys (sys.sent result) :=
  ⟨rfl, rfl, rfl, rfl, _, rfl⟩

/-- A step that leaves `la_seq` alone leaves the window where it is. -/
theorem sndBase_sent {result : Sender × List Frame} (laSeq : result.1.laSeq = sys.sndBase % seqLen) :
    (sys.sent result).sndBase = sys.sndBase := by
  change unwrap seqLen sys.sndBase _ = _
  rw [laSeq]
  exact unwrap_mod le_rfl (Nat.lt_add_of_pos_right (by decide))

/-- The window is full, or the last chunk is in it. -/
def Filled (job : Job) (sys : System) : Prop :=
  ∃ q, sys.sender.Aligned job.file sys.sndBase q ∧
    (q = windowLen ∨ sys.sndBase + q = job.file.lastChunk + 1)

/-- The send pass comes to its end. -/
theorem exists_top (h : sys.Inv job) {offset : ℕ} (phase : sys.sender.phase = .pass offset) :
    ∃ t, Leads (step job) sys t ∧ Sends sys t ∧ t.sender.phase = .top ∧ t.sndBase = sys.sndBase ∧
      t.Filled job := by
  generalize left : windowLen - offset = rest
  induction rest generalizing sys offset with
  | zero =>
    obtain ⟨q, joint⟩ := h
    have inside := (joint.counter offset phase).2
    omega
  | succ rest ih =>
    have next : step job sys (.slot ⟨0, 0⟩) =
        some (sys.sent (sys.sender.sendSlot job.file ⟨0, 0⟩ offset)) := by
      rw [step_slot, move, phase]
    have inv := h.step next
    obtain ⟨q, joint⟩ := h
    obtain ⟨behind, inside⟩ := joint.counter offset phase
    obtain ⟨q', -, result⟩ := joint.sender.sendSlot behind inside ⟨0, 0⟩
    have base := sndBase_sent result.aligned.laSeq
    rcases result.phase with top | ⟨pass, -, more⟩
    · obtain ⟨m, result', filled⟩ := joint.sender.sendSlot_top behind inside ⟨0, 0⟩ top
      refine ⟨_, .single next, sends_sent _ _, top, base, m, ?_⟩
      rw [base]
      exact ⟨result'.aligned, filled⟩
    · obtain ⟨t, leads, sends, top, same, filled⟩ := ih inv pass (by omega)
      exact ⟨t, .trans (.single next) leads, .trans (sends_sent _ _) sends, top, same.trans base, filled⟩

theorem poll_next (job : Job) (top : sys.sender.phase = .top) {ack : Ack} (member : ack ∈ sys.acks)
    (scan : ℕ → Timeval) (now : Timeval) : ∃ k,
      step job sys (.poll scan (some k) now) = some (sys.sent (sys.sender.poll scan (some ack) now, [])) := by
  obtain ⟨k, inside, found⟩ := List.getElem_of_mem member
  have at_k : sys.acks[k]? = some ack := found ▸ List.getElem?_eq_getElem inside
  exact ⟨k, by simp [move, top, pick, at_k]⟩

/-- The sender takes a fresh ack of all that was written so far, and makes its send pass. -/
theorem exists_take (h : sys.Joint job q) (top : sys.sender.phase = .top) {ack : Ack}
    (member : ack ∈ sys.acks) (number : ack.ackNum = (sys.rcvBase + 15) % seqLen)
    (fresh : sys.sender.lastAckTime < ack.time) (unfinished : sys.rcvBase ≤ job.file.lastChunk)
    (scan : ℕ → Timeval) (now : Timeval) :
    ∃ t, Leads (step job) sys t ∧ Sends sys t ∧ t.sender.phase = .top ∧ t.sndBase = sys.rcvBase ∧
      t.Filled job := by
  obtain ⟨k, next⟩ := poll_next job top member scan now
  have inv := Inv.step ⟨q, h⟩ next
  have scanned := h.sender.checkTimeout scan
  have same := Sender.checkTimeout_lastAckTime scan sys.sender
  rw [Sender.poll_some] at next inv
  generalize sys.sender.checkTimeout scan = s at next inv scanned same
  rw [← same] at fresh
  obtain ⟨laSeq, pass⟩ := scanned.handleAck_moves number h.below h.above unfinished fresh now
  have base : (sys.sent (s.handleAck now ack, [])).sndBase = sys.rcvBase := by
    change unwrap seqLen sys.sndBase _ = _
    rw [laSeq]
    have above := h.above
    have window := h.sender.window
    refine unwrap_mod h.below ?_
    dsimp only [seqLen, windowLen] at *
    omega
  obtain ⟨t, leads, sends, top', same', filled⟩ := exists_top inv pass
  exact ⟨t, .trans (.single next) leads, .trans (sends_sent _ _) sends, top', same'.trans base, filled⟩

/-- The sender takes a fresh ack of the whole file. -/
theorem exists_left (h : sys.Joint job q) (top : sys.sender.phase = .top) {ack : Ack}
    (member : ack ∈ sys.acks) (number : ack.ackNum = (sys.rcvBase + 15) % seqLen)
    (fresh : sys.sender.lastAckTime < ack.time) (finished : sys.rcvBase = job.file.lastChunk + 1)
    (scan : ℕ → Timeval) (now : Timeval) :
    ∃ t, Leads (step job) sys t ∧ Sends sys t ∧ t.sender.phase = .left := by
  obtain ⟨k, next⟩ := poll_next job top member scan now
  have scanned := h.sender.checkTimeout scan
  have same := Sender.checkTimeout_lastAckTime scan sys.sender
  rw [Sender.poll_some] at next
  generalize sys.sender.checkTimeout scan = s at next scanned same
  rw [← same] at fresh
  rw [finished] at number
  have above := h.above
  have created := h.sender.created
  have left := scanned.handleAck_leaves number (by omega) fresh now
  exact ⟨_, .single next, sends_sent _ _, left⟩

end System

/-- No window that reaches the last chunk wraps around the sequence numbers: the file has at most
16 chunks, or the number of its last one is at least 7. -/
def Job.Unwrapped (job : Job) : Prop :=
  job.file.lastChunk < seqLen ∨ windowLen ≤ job.file.lastChunk % seqLen + 1

instance (job : Job) : Decidable job.Unwrapped :=
  inferInstanceAs (Decidable (job.file.lastChunk < seqLen ∨ windowLen ≤ job.file.lastChunk % seqLen + 1))

theorem Job.Unwrapped.le {job : Job} (unwrapped : job.Unwrapped) {base : ℕ} (low : base ≤ job.file.lastChunk)
    (window : job.file.lastChunk < base + windowLen) : base % seqLen ≤ job.file.lastChunk % seqLen := by
  unfold Job.Unwrapped at unwrapped
  dsimp only [seqLen, windowLen] at *
  omega

namespace System

variable {job : Job} {q : ℕ} {sys : System}

/-- A send pass that finds its first slot due sends the first chunk of the window. -/
theorem exists_first (h : sys.Joint job q) (pass : sys.sender.phase = .pass 0)
    (go : ¬ (sys.sender.lastWindow ≠ -1 ∧ sys.sender.lastWindow < ((sys.sender.laSeq + 0 : ℕ) : ℤ)))
    (due : (sys.sender.alarmList ((sys.sender.laSeq + 0) % seqLen)).isSet ≠ .waiting) :
    ∃ t, Leads (step job) sys t ∧ Sends sys t ∧ t.sender.phase = .top ∧ t.sndBase = sys.sndBase ∧
      job.file.frame sys.sndBase ∈ t.frames := by
  have next : step job sys (.slot ⟨0, 0⟩) =
      some (sys.sent (sys.sender.sendSlot job.file ⟨0, 0⟩ 0)) := by
    rw [step_slot, move, pass]
  have sends := h.sender.sendSlot_first ⟨0, 0⟩ go due
  have member : job.file.frame sys.sndBase ∈
      (sys.sent (sys.sender.sendSlot job.file ⟨0, 0⟩ 0)).frames := by
    change _ ∈ _ ++ _
    rw [sends]
    exact List.mem_append_right _ (List.mem_singleton_self _)
  have inv := Inv.step ⟨q, h⟩ next
  obtain ⟨q', -, result⟩ := h.sender.sendSlot (Nat.zero_le q) (by decide) ⟨0, 0⟩
  have base := sndBase_sent result.aligned.laSeq
  rcases result.phase with top | ⟨more, -⟩
  · exact ⟨_, .single next, sends_sent _ _, top, base, member⟩
  · -- the rest of the pass does not take the frame back
    obtain ⟨t, rest, sends', top, same, -⟩ := exists_top inv more
    refine ⟨t, .trans (.single next) rest, .trans (sends_sent _ _) sends', top, same.trans base, ?_⟩
    obtain ⟨out, frames⟩ := sends'.frames
    rw [frames]
    exact List.mem_append_left _ member

/-- The sender times the first chunk of its window out and sends it, also for the first time. -/
theorem exists_resend (h : sys.Joint job q) (l : sys.Lively)
    (order : job.file.lastChunk < sys.sndBase + windowLen → sys.sndBase % seqLen ≤ job.file.lastChunk % seqLen)
    (top : sys.sender.phase = .top) : ∃ t, Leads (step job) sys t ∧ Sends sys t ∧
      t.sender.phase = .top ∧ t.sndBase = sys.sndBase ∧ job.file.frame sys.sndBase ∈ t.frames := by
  obtain ⟨now, due⟩ := Sender.exists_due l.patient
  have next : step job sys (.poll (fun _ => now) none ⟨0, 0⟩) =
      some (sys.sent (sys.sender.poll (fun _ => now) none ⟨0, 0⟩, [])) := by
    simp [move, top, pick]
  have inv := Inv.step ⟨q, h⟩ next
  have scanned := h.sender.checkTimeout fun _ => now
  obtain ⟨alarmList, same, -⟩ := Sender.checkTimeout_spec (fun _ => now) sys.sender
  have laSeq : (sys.sender.checkTimeout fun _ => now).laSeq = sys.sender.laSeq := by rw [same]
  rw [Sender.poll_none] at next inv
  generalize sys.sender.checkTimeout (fun _ => now) = s at *
  have go : ¬ (s.lastWindow ≠ -1 ∧ s.lastWindow < ((s.laSeq + 0 : ℕ) : ℤ)) := by
    rintro ⟨ended, beyond⟩
    have last := scanned.lastWindow
    have window := scanned.window
    split_ifs at last with all
    · have order := order (by omega)
      rw [last, scanned.laSeq] at beyond
      omega
    · exact ended last
  have due' : (s.alarmList ((s.laSeq + 0) % seqLen)).isSet ≠ .waiting := by
    rw [Nat.add_zero, laSeq]
    exact due
  have base : (sys.sent ({ s with phase := .pass 0 }, [])).sndBase = sys.sndBase :=
    sndBase_sent scanned.laSeq
  obtain ⟨q', joint⟩ := inv
  obtain ⟨t, leads, sends, top', same', member⟩ := exists_first joint rfl go due'
  exact ⟨t, .trans (.single next) leads, .trans (sends_sent _ _) sends, top', same'.trans base,
    base ▸ member⟩

end System

end ComputerNetworks.Transfer
