import ComputerNetworks.Transfer.Freshness

/-!
# The round trip time

`sendfile` takes the time since the acked slot was armed for a round trip time, in an
`int` of microseconds, and sets its timeout from it. An ack may bear the number of a slot
that was never armed, as the acks before the first chunk do.
-/

namespace ComputerNetworks.Transfer

open Lib

namespace Timeval

/-- Narrowing the seconds and microseconds of the earlier reading does no harm beyond that
of narrowing the difference. -/
theorem elapsed_toInt32 (now sent : Timeval) :
    now.elapsed (toInt32 sent.sec) (toInt32 sent.usec) =
      toInt32 ((now.micros : ℤ) - sent.micros) := by
  have wraps : ∀ x : ℤ, ∃ k, toInt32 x = x + (2 ^ 32 : ℕ) * k := by
    intro x
    refine ⟨-Int.bdiv x (2 ^ 32), ?_⟩
    have := Int.bmod_add_bdiv x (2 ^ 32)
    unfold toInt32
    omega
  obtain ⟨k, sec⟩ := wraps sent.sec
  obtain ⟨l, usec⟩ := wraps sent.usec
  unfold elapsed
  rw [sec, usec]
  have sum : ((now.sec : ℤ) - (sent.sec + (2 ^ 32 : ℕ) * k)) * 1000000 +
      ((now.usec : ℤ) - (sent.usec + (2 ^ 32 : ℕ) * l)) =
        ((now.micros : ℤ) - sent.micros) + (2 ^ 32 : ℕ) * (-k * 1000000 - l) := by
    unfold micros
    push_cast
    ring
  rw [sum]
  exact Int.add_mul_bmod_self_left _ _ _

theorem toInt32_eq {x : ℤ} (low : -2 ^ 31 ≤ x) (high : x < 2 ^ 31) : toInt32 x = x :=
  Int.bmod_eq_of_le (by simpa using low) (by simpa using high)

theorem toInt32_lt (x : ℤ) : toInt32 x < 2 ^ 31 := by
  have bound : Int.bmod x (2 ^ 32) < ((2 ^ 32 : ℕ) + 1) / 2 := Int.bmod_lt (by decide)
  unfold toInt32
  omega

end Timeval

namespace Sender

/-- The round trip time that the handling of an ack computes, if it does. -/
def newRtt (now : Timeval) (ack : Ack) (s : Sender) : Option ℤ :=
  if s.lastAckTime < ack.time ∧ ack.ackNum < seqLen ∧
      ¬ (between s.laSeq ((s.laSeq + windowLen - 1) % seqLen) ack.ackNum ∧
        (ack.ackNum : ℤ) = s.lastWindow) then
    some (now.elapsed (s.alarmList ack.ackNum).tvSec (s.alarmList ack.ackNum).tvUsec)
  else none

/-- The number of the ack that an iteration of the main loop measures, the clock then, and
the round trip time. -/
def Turn.measured (s : Sender) : Turn → Option (ℕ × Timeval × ℤ)
  | .main scan (some ack) now _ =>
    ((s.checkTimeout scan).newRtt now ack).map fun rtt => (ack.ackNum, now, rtt)
  | _ => none

/-- The times at which the slots were last transmitted, after a send pass. -/
def passSent (file : RegularFile) (clock : ℕ → Timeval) :
    ℕ → Sender → (ℕ → Option Timeval) → ℕ → Option Timeval
  | 0, _, sentAt => sentAt
  | rest + 1, s, sentAt =>
    match s.phase with
    | .pass offset =>
      let slot := s.sendSlot file (clock offset) offset
      passSent file clock rest slot.1
        (if slot.2 = [] then sentAt
          else Function.update sentAt ((s.laSeq + offset) % seqLen) (some (clock offset)))
    | _ => sentAt

/-- The times at which the slots were last transmitted, after a turn. -/
def Turn.sentAfter (job : Job) (s : Sender) (sentAt : ℕ → Option Timeval) :
    Turn → ℕ → Option Timeval
  | .name _ _ => sentAt
  | .main scan ack now clock => passSent job.file clock windowLen (s.poll scan ack now) sentAt

/-! ### Timers -/

variable {s t : Sender}

/-- `t` has the timers of `s`. -/
def SameTimers (s t : Sender) : Prop :=
  ∀ k, (t.alarmList k).tvSec = (s.alarmList k).tvSec ∧
    (t.alarmList k).tvUsec = (s.alarmList k).tvUsec

theorem SameTimers.refl (s : Sender) : SameTimers s s := fun _ => ⟨rfl, rfl⟩

theorem SameTimers.trans {u : Sender} (h : SameTimers s t) (h' : SameTimers t u) :
    SameTimers s u :=
  fun k => ⟨(h' k).1.trans (h k).1, (h' k).2.trans (h k).2⟩

/-- Changing a slot in other respects than its timer. -/
theorem SameTimers.update {k : ℕ} {alarm : Alarm}
    (same : t.alarmList = Function.update s.alarmList k alarm)
    (sec : alarm.tvSec = (s.alarmList k).tvSec) (usec : alarm.tvUsec = (s.alarmList k).tvUsec) :
    SameTimers s t := by
  intro l
  rw [same]
  by_cases here : l = k
  · subst here
    rw [Function.update_self]
    exact ⟨sec, usec⟩
  · rw [Function.update_of_ne here]
    exact ⟨rfl, rfl⟩

theorem sameTimers_foldl {α : Type*} (f : Sender → α → Sender)
    (keeps : ∀ s a, SameTimers s (f s a)) (as : List α) (s : Sender) :
    SameTimers s (as.foldl f s) := by
  induction as generalizing s with
  | nil => exact .refl s
  | cons a as ih => exact (keeps s a).trans (ih (f s a))

theorem sameTimers_checkTimeout (scan : ℕ → Timeval) (s : Sender) :
    SameTimers s (s.checkTimeout scan) := by
  apply sameTimers_foldl
  intro t j
  unfold scanSlot
  dsimp only
  split_ifs
  · exact .update rfl rfl rfl
  · exact .refl t

theorem sameTimers_release (ackNum : ℕ) (s : Sender) : SameTimers s (s.release ackNum) := by
  apply sameTimers_foldl
  intro t j
  unfold releaseSlot
  split_ifs
  · exact .update rfl rfl rfl
  · exact .refl t

/-- The timeout is set from the round trip time computed, if one is. -/
theorem handleAck_timeout (now : Timeval) (ack : Ack) (s : Sender) :
    (s.handleAck now ack).timeout = ((s.newRtt now ack).map nextTimeout).getD s.timeout := by
  unfold handleAck newRtt
  by_cases fresh : s.lastAckTime < ack.time
  · by_cases valid : ack.ackNum < seqLen
    · by_cases inside : between s.laSeq ((s.laSeq + windowLen - 1) % seqLen) ack.ackNum = true
      · by_cases last : (ack.ackNum : ℤ) = s.lastWindow
        · rw [if_pos fresh, if_neg (not_le.mpr valid), if_pos inside, if_pos last,
            if_neg fun passes => passes.2.2 ⟨inside, last⟩]
          rfl
        · obtain ⟨sec, usec⟩ := sameTimers_release ack.ackNum { s with lastAckTime := ack.time }
            ack.ackNum
          rw [if_pos fresh, if_neg (not_le.mpr valid), if_pos inside, if_neg last,
            if_pos ⟨fresh, valid, fun passes => last passes.2⟩]
          simp only [updateRtt, acceptAck, sec, usec, Option.map_some, Option.getD_some]
      · rw [if_pos fresh, if_neg (not_le.mpr valid), if_neg inside,
          if_pos ⟨fresh, valid, fun passes => inside passes.1⟩]
        rfl
    · rw [if_pos fresh, if_pos (not_lt.mp valid), if_neg fun passes => valid passes.2.1]
      rfl
  · rw [if_neg fresh, if_neg fun passes => fresh passes.1]
    rfl

theorem sameTimers_handleAck (now : Timeval) (ack : Ack) (s : Sender) :
    SameTimers s (s.handleAck now ack) := by
  unfold handleAck
  dsimp only
  split_ifs
  · exact .refl s
  · exact .refl s
  · exact sameTimers_release ack.ackNum _
  · exact .refl s
  · exact .refl s

theorem sameTimers_poll (scan : ℕ → Timeval) (ack : Option Ack) (now : Timeval) (s : Sender) :
    SameTimers s (s.poll scan ack now) := by
  have scanned := sameTimers_checkTimeout scan s
  cases ack with
  | none =>
    rw [poll_none]
    generalize s.checkTimeout scan = u at scanned ⊢
    exact scanned
  | some ack =>
    rw [poll_some]
    exact scanned.trans (sameTimers_handleAck now ack _)

/-- A poll goes on to the send pass at its first slot, if it does. -/
theorem poll_phase {scan : ℕ → Timeval} {ack : Option Ack} {now : Timeval} {i : ℕ}
    (pass : (s.poll scan ack now).phase = .pass i) : i = 0 := by
  cases ack with
  | none => exact (SenderPhase.pass.inj pass).symm
  | some ack =>
    rw [poll_some] at pass
    unfold handleAck at pass
    dsimp only at pass
    split_ifs at pass <;> cases pass <;> rfl

theorem sameTimers_nameIteration (job : Job) (now : Timeval) (ack : Option Ack) (s : Sender) :
    SameTimers s (s.nameIteration job now ack).1 ∧
      (s.nameIteration job now ack).1.timeout = s.timeout := by
  unfold nameIteration
  dsimp only
  cases ack with
  | none =>
    dsimp only
    split_ifs <;> exact ⟨.refl s, rfl⟩
  | some ack =>
    dsimp only
    split_ifs <;> exact ⟨.refl s, rfl⟩

/-- A slot of the send pass arms the timer of the frame it sends, and no other. -/
theorem sendSlot_timers (file : RegularFile) (now : Timeval) (offset : ℕ) (s : Sender) :
    (s.sendSlot file now offset).2 = [] ∧ SameTimers s (s.sendSlot file now offset).1 ∨
      (s.sendSlot file now offset).2 ≠ [] ∧ ∃ size,
        (s.sendSlot file now offset).1.alarmList =
          Function.update s.alarmList ((s.laSeq + offset) % seqLen)
            ⟨.waiting, size, Timeval.toInt32 now.sec, Timeval.toInt32 now.usec⟩ := by
  unfold sendSlot
  dsimp only
  by_cases stop : s.lastWindow ≠ -1 ∧ s.lastWindow < ((s.laSeq + offset : ℕ) : ℤ)
  · rw [if_pos stop]
    exact .inl ⟨rfl, .refl s⟩
  · rw [if_neg stop]
    cases (s.alarmList ((s.laSeq + offset) % seqLen)).isSet with
    | waiting => exact .inl ⟨rfl, .refl s⟩
    | timedOut =>
      dsimp only
      cases getK s.root offset with
      | none => exact .inl ⟨rfl, .refl s⟩
      | some node => exact .inr ⟨List.cons_ne_nil _ _, _, rfl⟩
    | unset =>
      refine .inr ⟨List.cons_ne_nil _ _, ?_⟩
      simp only [transmit, createFrame, Function.update_idem]
      exact ⟨_, rfl⟩

/-! ### The invariant -/

/-- The timer of a transmitted slot is the time of its last transmission, which the clock
has passed. -/
def Timed (sentAt : ℕ → Option Timeval) (clock : ℕ) (s : Sender) : Prop :=
  ∀ k sent, sentAt k = some sent → sent.micros ≤ clock ∧
    (s.alarmList k).tvSec = Timeval.toInt32 sent.sec ∧
      (s.alarmList k).tvUsec = Timeval.toInt32 sent.usec

variable {sentAt : ℕ → Option Timeval} {clock later : ℕ}

theorem Timed.mono (h : Timed sentAt clock s) (le : clock ≤ later) : Timed sentAt later s :=
  fun k sent at_k => ⟨(h k sent at_k).1.trans le, (h k sent at_k).2⟩

theorem Timed.of_sameTimers (h : Timed sentAt clock s) (same : SameTimers s t) :
    Timed sentAt clock t := by
  intro k sent sent_at
  obtain ⟨past, sec, usec⟩ := h k sent sent_at
  exact ⟨past, (same k).1.trans sec, (same k).2.trans usec⟩

/-- The counter of the send pass stays inside the window. -/
theorem sendSlot_phase {file : RegularFile} {now : Timeval} {offset i : ℕ}
    (pass : (s.sendSlot file now offset).1.phase = .pass i) : i < windowLen := by
  have next : (s.sendSlot file now offset).1.phase = .top ∨
      (s.sendSlot file now offset).1.phase =
        if offset + 1 < windowLen then .pass (offset + 1) else .top := by
    unfold sendSlot
    dsimp only
    by_cases stop : s.lastWindow ≠ -1 ∧ s.lastWindow < ((s.laSeq + offset : ℕ) : ℤ)
    · rw [if_pos stop]
      exact .inl rfl
    · rw [if_neg stop]
      cases (s.alarmList ((s.laSeq + offset) % seqLen)).isSet with
      | waiting => exact .inr rfl
      | timedOut =>
        dsimp only
        cases getK s.root offset <;> exact .inr rfl
      | unset => exact .inr rfl
  rw [pass] at next
  split_ifs at next with more
  · obtain next | next := next <;> cases next
    exact more
  · obtain next | next := next <;> cases next

/-- The send pass records the times at which it arms timers. -/
theorem Timed.sendPass {file : RegularFile} {readings : ℕ → Timeval} {rest : ℕ}
    (h : Timed sentAt clock s) (inside : ∀ i, s.phase = .pass i → i < windowLen)
    (past : ∀ i < windowLen, (readings i).micros ≤ clock) :
    Timed (passSent file readings rest s sentAt) clock (s.sendPass file readings rest).1 := by
  induction rest generalizing s sentAt with
  | zero => exact h
  | succ rest ih =>
    unfold passSent Sender.sendPass
    cases phase : s.phase with
    | pass offset =>
      refine ih ?_ fun i => sendSlot_phase
      rcases sendSlot_timers file (readings offset) offset s with ⟨idle, same⟩ | ⟨sent, size, armed⟩
      · rw [if_pos idle]
        exact h.of_sameTimers same
      · rw [if_neg sent]
        intro k at_k sent_at
        rw [armed]
        by_cases here : k = (s.laSeq + offset) % seqLen
        · subst here
          rw [Function.update_self] at sent_at ⊢
          obtain rfl := Option.some.inj sent_at
          exact ⟨past offset (inside offset phase), by dsimp only, by dsimp only⟩
        · rw [Function.update_of_ne here] at sent_at ⊢
          exact h k at_k sent_at
    | naming => exact h
    | top => exact h
    | left => exact h

end Sender

/-! ### Runs -/

/-- Clock readings for the slots of the window, one after the other. -/
def Nondecreasing (clock : ℕ → Timeval) : Prop :=
  ∀ i < windowLen, ∀ j < windowLen, i ≤ j → (clock i).micros ≤ (clock j).micros

/-- The readings of a turn go on from `since` and do not go back. -/
def Sender.Turn.Follows (since : ℕ) : Sender.Turn → Prop
  | .name now _ => since ≤ now.micros
  | .main scan _ now clock =>
    since ≤ (scan 0).micros ∧ Nondecreasing scan ∧ (scan (windowLen - 1)).micros ≤ now.micros ∧
      now.micros ≤ (clock 0).micros ∧ Nondecreasing clock

/-- The last reading of a turn. -/
def Sender.Turn.last : Sender.Turn → ℕ
  | .name now _ => now.micros
  | .main _ _ _ clock => (clock (windowLen - 1)).micros

instance (since : ℕ) (a : Sender.Turn) : Decidable (a.Follows since) := by
  unfold Sender.Turn.Follows Nondecreasing
  cases a <;> infer_instance

/-- The sender, with the times of the last transmissions and of the last turn. -/
structure Timing where
  sender : Sender
  sentAt : ℕ → Option Timeval
  clock : ℕ

namespace Timing

/-- Before the file name is first sent. -/
def start : Timing := ⟨.start, fun _ => none, 0⟩

/-- A turn at a later time. -/
def step (job : Job) (s : Timing) (a : Sender.Turn) : Option Timing :=
  if a.Follows s.clock then
    (s.sender.turn job a).map fun t => ⟨t, a.sentAfter job s.sender s.sentAt, a.last⟩
  else none

/-- The timeout is in range, and the round trip time, if one is computed, is the time since
the acked slot was last transmitted. -/
structure InRange (s : Timing) (a : Sender.Turn) (t : Timing) : Prop where
  nonneg : 0 ≤ t.sender.timeout
  le : t.sender.timeout ≤ 5000
  rtt : ∀ ackNum now rtt, a.measured s.sender = some (ackNum, now, rtt) →
    ∃ sent, s.sentAt ackNum = some sent ∧ rtt = (now.micros : ℤ) - sent.micros

/-- An ack that sets the timeout is of a slot transmitted before, and that within `2 ^ 31`
microseconds. -/
def Measurable (s : Timing) (a : Sender.Turn) : Prop :=
  ∀ ackNum now rtt, a.measured s.sender = some (ackNum, now, rtt) →
    ∃ sent, s.sentAt ackNum = some sent ∧ now.micros < sent.micros + 2 ^ 31

/-- What holds of the timers and the timeout between two turns. -/
structure Law (s : Timing) : Prop where
  timed : Sender.Timed s.sentAt s.clock s.sender
  nonneg : 0 ≤ s.sender.timeout
  le : s.sender.timeout ≤ 5000

variable {job : Job} {s t : Timing} {a : Sender.Turn}

theorem step_cases (next : s.step job a = some t) : a.Follows s.clock ∧
    ∃ u, s.sender.turn job a = some u ∧ t = ⟨u, a.sentAfter job s.sender s.sentAt, a.last⟩ := by
  unfold step at next
  split_ifs at next with follows
  obtain ⟨u, turn, same⟩ := Option.map_eq_some_iff.mp next
  exact ⟨follows, u, turn, same.symm⟩

theorem step_timed (h : Sender.Timed s.sentAt s.clock s.sender) (next : s.step job a = some t) :
    Sender.Timed t.sentAt t.clock t.sender := by
  obtain ⟨follows, u, turn, rfl⟩ := step_cases next
  cases a with
  | name now ack =>
    obtain rfl := Sender.turn_name turn
    exact (h.of_sameTimers (Sender.sameTimers_nameIteration job now ack s.sender).1).mono follows
  | main scan ack now clock =>
    obtain rfl := Sender.turn_main turn
    obtain ⟨since, scans, polled, sends, passes⟩ := follows
    have scanned := scans 0 (by decide) (windowLen - 1) (by decide) (Nat.zero_le _)
    have sent := passes 0 (by decide) (windowLen - 1) (by decide) (Nat.zero_le _)
    have late : s.clock ≤ (clock (windowLen - 1)).micros := by omega
    apply ((h.of_sameTimers (Sender.sameTimers_poll scan ack now s.sender)).mono late).sendPass
    · intro i pass
      rw [Sender.poll_phase pass]
      decide
    · intro i hi
      exact passes i hi (windowLen - 1) (by decide) (by omega)

/-- The timeout after a turn. -/
theorem step_timeout (next : s.step job a = some t) :
    t.sender.timeout =
      ((a.measured s.sender).map fun m => Sender.nextTimeout m.2.2).getD s.sender.timeout := by
  obtain ⟨-, u, turn, rfl⟩ := step_cases next
  cases a with
  | name now ack =>
    obtain rfl := Sender.turn_name turn
    exact (Sender.sameTimers_nameIteration job now ack s.sender).2
  | main scan ack now clock =>
    obtain rfl := Sender.turn_main turn
    have same : (s.sender.checkTimeout scan).timeout = s.sender.timeout := by
      obtain ⟨alarmList, scanned, -⟩ := Sender.checkTimeout_spec scan s.sender
      rw [scanned]
    unfold Sender.iteration Sender.Turn.measured
    rw [(Sender.sendPass_frame ..).2]
    cases ack with
    | none =>
      rw [Sender.poll_none]
      generalize s.sender.checkTimeout scan = u at same ⊢
      exact same
    | some ack =>
      rw [Sender.poll_some, Sender.handleAck_timeout]
      dsimp only
      generalize s.sender.checkTimeout scan = u at same ⊢
      rw [same]
      cases u.newRtt now ack <;> rfl

/-- Only an iteration of the main loop measures anything. -/
theorem measured_cases {u : Sender} {ackNum : ℕ} {now : Timeval} {rtt : ℤ}
    (measured : a.measured u = some (ackNum, now, rtt)) : ∃ scan ack clock,
      a = .main scan (some ack) now clock ∧ ack.ackNum = ackNum ∧
        (u.checkTimeout scan).newRtt now ack = some rtt := by
  unfold Sender.Turn.measured at measured
  split at measured
  · rename_i scan ack now' clock
    obtain ⟨x, computed, same⟩ := Option.map_eq_some_iff.mp measured
    obtain ⟨rfl, rfl, rfl⟩ : ack.ackNum = ackNum ∧ now' = now ∧ x = rtt := by simpa using same
    exact ⟨scan, ack, clock, rfl, rfl, computed⟩
  · cases measured

/-- What a turn measures is the narrowed time since the last transmission. -/
theorem measured_eq (h : Sender.Timed s.sentAt s.clock s.sender) {ackNum : ℕ} {now : Timeval}
    {rtt : ℤ} (measured : a.measured s.sender = some (ackNum, now, rtt)) {sent : Timeval}
    (sentAt : s.sentAt ackNum = some sent) :
    rtt = Timeval.toInt32 ((now.micros : ℤ) - sent.micros) := by
  obtain ⟨scan, ack, clock, -, rfl, computed⟩ := measured_cases measured
  unfold Sender.newRtt at computed
  split_ifs at computed
  obtain ⟨-, sec, usec⟩ := (h.of_sameTimers (Sender.sameTimers_checkTimeout scan s.sender))
    ack.ackNum sent sentAt
  rw [← Option.some.inj computed, sec, usec, Timeval.elapsed_toInt32]

/-- The clock at a measurement is past that of the transmission. -/
theorem measured_later (next : s.step job a = some t) {ackNum : ℕ} {now : Timeval} {rtt : ℤ}
    (measured : a.measured s.sender = some (ackNum, now, rtt)) : s.clock ≤ now.micros := by
  obtain ⟨follows, -⟩ := step_cases next
  obtain ⟨scan, ack, clock, rfl, -⟩ := measured_cases measured
  obtain ⟨since, scans, polled, -⟩ := follows
  have scanned := scans 0 (by decide) (windowLen - 1) (by decide) (Nat.zero_le _)
  omega

theorem nextTimeout_inRange {rtt : ℤ} (nonneg : 0 ≤ rtt) :
    0 ≤ Sender.nextTimeout rtt ∧ Sender.nextTimeout rtt ≤ 5000 := by
  unfold Sender.nextTimeout
  split_ifs
  · rw [Int.tdiv_eq_ediv_of_nonneg (by omega)]
    omega
  · decide

theorem inRange_iff (h : Law s) (next : s.step job a = some t) : InRange s a t ↔ Measurable s a := by
  constructor
  · intro inRange ackNum now rtt measured
    obtain ⟨sent, sentAt, exact⟩ := inRange.rtt ackNum now rtt measured
    refine ⟨sent, sentAt, ?_⟩
    have narrow := Timeval.toInt32_lt ((now.micros : ℤ) - sent.micros)
    rw [← measured_eq h.timed measured sentAt, exact] at narrow
    omega
  · intro measurable
    have exact : ∀ ackNum now rtt, a.measured s.sender = some (ackNum, now, rtt) →
        ∃ sent, s.sentAt ackNum = some sent ∧ rtt = (now.micros : ℤ) - sent.micros ∧ 0 ≤ rtt := by
      intro ackNum now rtt measured
      obtain ⟨sent, sentAt, soon⟩ := measurable ackNum now rtt measured
      have past := (h.timed ackNum sent sentAt).1
      have later := measured_later next measured
      have rtt_eq := measured_eq h.timed measured sentAt
      rw [Timeval.toInt32_eq (by omega) (by omega)] at rtt_eq
      exact ⟨sent, sentAt, rtt_eq, by omega⟩
    have range : 0 ≤ t.sender.timeout ∧ t.sender.timeout ≤ 5000 := by
      rw [step_timeout next]
      cases measured : a.measured s.sender with
      | none => exact ⟨h.nonneg, h.le⟩
      | some m =>
        obtain ⟨-, -, -, nonneg⟩ := exact m.1 m.2.1 m.2.2 measured
        exact nextTimeout_inRange nonneg
    exact ⟨range.1, range.2, fun ackNum now rtt measured =>
      (exact ackNum now rtt measured).imp fun _ facts => ⟨facts.1, facts.2.1⟩⟩

/-- Turns in which the timeout stays in range keep the law. -/
theorem Law.step (h : Law s) (next : s.step job a = some t) (inRange : InRange s a t) : Law t :=
  ⟨step_timed h.timed next, inRange.nonneg, inRange.le⟩

theorem Law.start : Law .start :=
  ⟨fun _ _ sent => (by cases sent), by decide, by decide⟩

end Timing

/-- The timeout stays in range in a run with a clock that does not go back exactly when
each ack that sets it is of a slot transmitted within `2 ^ 31` microseconds before. -/
theorem timeout_inRange_iff (job : Job) (turns : List Sender.Turn) :
    EachStep (Timing.step job) Timing.InRange .start turns ↔
      EachStep (Timing.step job) (fun s a _ => s.Measurable a) .start turns := by
  apply EachStep.iff_of_invariant (I := Timing.Law)
  · intro s a t law next inRange
    exact law.step next inRange
  · intro s a t law next
    exact Timing.inRange_iff law next
  · exact .start

/-- The ack of the file name, repeated before the first chunk, sets a negative timeout. -/
theorem repeatedAck_not_inRange :
    ¬ EachStep (Timing.step ⟨⟨0, fun _ => 0⟩, [120]⟩) Timing.InRange .start
      [.name ⟨2147, 0⟩ (some (.stamp 15 ⟨2147, 0⟩)),
        .main (fun _ => ⟨2147, 1⟩) (some (.stamp 15 ⟨2147, 1⟩)) ⟨2147, 483648⟩
          fun _ => ⟨2147, 483648⟩] := by
  intro each
  have law := ((each _ rfl).2 _ rfl).1
  exact absurd law.nonneg (by decide)

end ComputerNetworks.Transfer
