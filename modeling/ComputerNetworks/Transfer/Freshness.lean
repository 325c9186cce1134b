import ComputerNetworks.Transfer.Resend

/-!
# Which acks are fresh

`sendfile` takes an ack for new when its stamp is above `last_ack_time`. A stamp is the
receiver's clock in microseconds, kept in 32 bits, so its order is that of the clock
until the clock passes a multiple of `2 ^ 32` microseconds, about every 72 minutes.
-/

namespace ComputerNetworks.Transfer

open Lib

namespace Sender

variable {job : Job} {s t : Sender}

/-- The ack that an iteration takes for new, if it gets one: the test of its stamp, and
in the first loop those of its type and number. -/
def Turn.accepted (s : Sender) : Turn → Option Ack
  | .name _ (some ack) =>
    if s.lastAckTime < ack.time ∧ ack.type = 1 ∧ ack.ackNum = seqLen - 1 then some ack else none
  | .main _ (some ack) _ _ => if s.lastAckTime < ack.time then some ack else none
  | _ => none

/-- Only an ack with a larger stamp is taken for new. -/
theorem fresh_of_accepted {a : Turn} {ack : Ack} (accepted : a.accepted s = some ack) :
    s.lastAckTime < ack.time := by
  unfold Turn.accepted at accepted
  split at accepted
  · split_ifs at accepted with passes
    cases accepted
    exact passes.1
  · split_ifs at accepted with passes
    cases accepted
    exact passes
  · cases accepted

/-! ### `last_ack_time` -/

@[simp] theorem checkTimeout_lastAckTime (scan : ℕ → Timeval) (s : Sender) :
    (s.checkTimeout scan).lastAckTime = s.lastAckTime := by
  obtain ⟨alarmList, scanned, -⟩ := checkTimeout_spec scan s
  rw [scanned]

theorem handleAck_lastAckTime (now : Timeval) (ack : Ack) (s : Sender) :
    (s.handleAck now ack).lastAckTime =
      if s.lastAckTime < ack.time then ack.time else s.lastAckTime := by
  unfold handleAck
  by_cases fresh : s.lastAckTime < ack.time
  · rw [if_pos fresh, if_pos fresh]
    dsimp only
    split_ifs
    · rfl
    · rfl
    · exact release_lastAckTime ack.ackNum _
    · rfl
  · rw [if_neg fresh, if_neg fresh]

/-- The send pass does not look at acks. -/
theorem sendSlot_frame (file : RegularFile) (now : Timeval) (offset : ℕ) (s : Sender) :
    (s.sendSlot file now offset).1.lastAckTime = s.lastAckTime ∧
      (s.sendSlot file now offset).1.timeout = s.timeout := by
  unfold sendSlot
  dsimp only
  by_cases stop : s.lastWindow ≠ -1 ∧ s.lastWindow < ((s.laSeq + offset : ℕ) : ℤ)
  · rw [if_pos stop]
    exact ⟨rfl, rfl⟩
  · rw [if_neg stop]
    cases (s.alarmList ((s.laSeq + offset) % seqLen)).isSet with
    | waiting => exact ⟨rfl, rfl⟩
    | timedOut =>
      dsimp only
      cases getK s.root offset <;> exact ⟨rfl, rfl⟩
    | unset => exact ⟨rfl, rfl⟩

theorem sendPass_frame (file : RegularFile) (clock : ℕ → Timeval) (rest : ℕ) (s : Sender) :
    (s.sendPass file clock rest).1.lastAckTime = s.lastAckTime ∧
      (s.sendPass file clock rest).1.timeout = s.timeout := by
  induction rest generalizing s with
  | zero => exact ⟨rfl, rfl⟩
  | succ rest ih =>
    unfold sendPass
    split
    · obtain ⟨stamp, timeout⟩ := sendSlot_frame file (clock _) _ s
      exact ⟨(ih _).1.trans stamp, (ih _).2.trans timeout⟩
    · exact ⟨rfl, rfl⟩

/-- An iteration moves `last_ack_time` to the stamp of the ack it takes for new. -/
theorem turn_lastAckTime {a : Turn} (next : s.turn job a = some t) :
    t.lastAckTime = ((a.accepted s).map Ack.time).getD s.lastAckTime := by
  cases a with
  | name now ack =>
    obtain rfl := turn_name next
    unfold nameIteration Turn.accepted
    cases ack with
    | none =>
      dsimp only
      split_ifs <;> rfl
    | some ack =>
      dsimp only
      split_ifs <;> rfl
  | main scan ack now clock =>
    obtain rfl := turn_main next
    unfold iteration Turn.accepted
    -- only the poll looks at acks
    rw [(sendPass_frame ..).1]
    cases ack with
    | none =>
      rw [poll_none]
      have same := checkTimeout_lastAckTime scan s
      generalize s.checkTimeout scan = u at same ⊢
      exact same
    | some ack =>
      rw [poll_some, handleAck_lastAckTime, checkTimeout_lastAckTime]
      dsimp only
      split_ifs <;> rfl

/-! ### Runs -/

/-- `sendfile` can be in state `s` after it took acks stamped with these clock readings
for new, in this order. -/
inductive Accepts (job : Job) : List Timeval → Sender → Prop
  | start : Accepts job [] Sender.start
  | ignore {readings : List Timeval} {s t : Sender} {a : Turn} (prior : Accepts job readings s)
      (next : s.turn job a = some t) (ignored : a.accepted s = none) : Accepts job readings t
  | accept {readings : List Timeval} {s t : Sender} {a : Turn} {ackNum : ℕ} {tv : Timeval}
      (prior : Accepts job readings s) (next : s.turn job a = some t)
      (accepted : a.accepted s = some (.stamp ackNum tv)) : Accepts job (readings ++ [tv]) t

/-- The stamp of a clock reading. -/
def stampTime (tv : Timeval) : ℕ := tv.micros % 2 ^ 32

/-- `last_ack_time` is the largest stamp accepted, or 0. -/
theorem Accepts.lastAckTime {readings : List Timeval} (h : Accepts job readings s) :
    (∀ tv ∈ readings, stampTime tv ≤ s.lastAckTime) ∧
      (s.lastAckTime = 0 ∨ ∃ tv ∈ readings, s.lastAckTime = stampTime tv) := by
  induction h with
  | start => exact ⟨by simp, .inl rfl⟩
  | ignore _ next ignored ih =>
    have kept := turn_lastAckTime next
    rw [ignored] at kept
    rw [show _ = _ from kept]
    exact ih
  | @accept readings s t a ackNum tv _ next accepted ih =>
    have moved := turn_lastAckTime next
    rw [accepted] at moved
    have stamp : t.lastAckTime = stampTime tv := moved.trans (Ack.stamp_time ackNum tv)
    -- only a larger stamp is accepted
    have larger : s.lastAckTime < stampTime tv :=
      (fresh_of_accepted accepted).trans_eq (Ack.stamp_time ackNum tv)
    refine ⟨fun other member => ?_, .inr ⟨tv, by simp, stamp⟩⟩
    rw [stamp]
    rcases List.mem_append.mp member with old | new
    · exact (ih.1 other old).trans larger.le
    · rw [List.mem_singleton.mp new]

/-- While the receiver's clock reads from `start` to `stop`, stamps follow the clock: an
ack passes the test if it was stamped after all accepted ones, and does not if one of
them was stamped no earlier. -/
def FollowsClock (job : Job) (start stop : ℕ) : Prop :=
  ∀ readings s, Accepts job readings s →
    (∀ tv ∈ readings, tv.usec < 1000000 ∧ start ≤ tv.micros ∧ tv.micros ≤ stop) →
    ∀ (ackNum : ℕ) tv, tv.usec < 1000000 → start ≤ tv.micros → tv.micros ≤ stop →
      ((∀ earlier ∈ readings, earlier.micros < tv.micros) →
        s.lastAckTime < (Ack.stamp ackNum tv).time) ∧
      ((∃ later ∈ readings, tv.micros ≤ later.micros) →
        ¬ s.lastAckTime < (Ack.stamp ackNum tv).time)

/-- The clock reading at a number of microseconds. -/
def clockAt (micros : ℕ) : Timeval := ⟨micros / 1000000, micros % 1000000⟩

theorem clockAt_micros (micros : ℕ) : (clockAt micros).micros = micros := by
  unfold clockAt Timeval.micros
  dsimp only
  omega

/-- Between two multiples of `2 ^ 32` the order of the stamps is that of the readings. -/
theorem stampTime_mono {start stop : ℕ} (apart : ∀ k, ¬ (start ≤ k * 2 ^ 32 ∧ k * 2 ^ 32 ≤ stop))
    {a b : Timeval} (hstart : start ≤ a.micros) (le : a.micros ≤ b.micros)
    (hstop : b.micros ≤ stop) : 0 < stampTime a ∧ stampTime a ≤ stampTime b ∧
      (a.micros < b.micros → stampTime a < stampTime b) := by
  have first := apart (b.micros / 2 ^ 32)
  have next := apart (a.micros / 2 ^ 32)
  unfold stampTime
  omega

/-- Stamps follow the clock exactly when it passes no multiple of `2 ^ 32` microseconds
from the first reading to the last. -/
theorem followsClock_iff (job : Job) (start stop : ℕ) :
    FollowsClock job start stop ↔ ∀ k, ¬ (start ≤ k * 2 ^ 32 ∧ k * 2 ^ 32 ≤ stop) := by
  constructor
  · rintro follows k ⟨after, before⟩
    -- an ack stamped 0 never passes
    have usec : (clockAt (k * 2 ^ 32)).usec < 1000000 := Nat.mod_lt _ (by decide)
    have passes := (follows [] Sender.start .start (by simp) 0 (clockAt (k * 2 ^ 32)) usec
      (by rw [clockAt_micros]; exact after) (by rw [clockAt_micros]; exact before)).1 (by simp)
    rw [Ack.stamp_time, clockAt_micros, Nat.mul_mod_left] at passes
    exact absurd passes (Nat.not_lt_zero _)
  · intro apart readings s accepts inside ackNum tv _ after before
    obtain ⟨largest, reached⟩ := accepts.lastAckTime
    rw [Ack.stamp_time]
    constructor
    · intro later
      -- `last_ack_time` is 0 before the first ack, and 0 is no stamp inside the interval
      rcases reached with zero | ⟨earlier, member, same⟩
      · rw [zero]
        exact (stampTime_mono apart after le_rfl before).1
      · rw [same]
        have less := later earlier member
        exact (stampTime_mono apart (inside earlier member).2.1 less.le before).2.2 less
    · rintro ⟨later, member, le⟩ passes
      have order := (stampTime_mono apart after le (inside later member).2.2).2.1
      exact absurd (passes.trans_le (order.trans (largest later member))) (lt_irrefl _)

/-- Of two acks one microsecond apart, the second is ignored when the first is stamped
`2 ^ 32 - 1`. -/
theorem wrappedStamp_ignored : ¬ FollowsClock ⟨⟨0, fun _ => 0⟩, [120]⟩ (2 ^ 32 - 1) (2 ^ 32) := by
  intro follows
  have taken : Accepts ⟨⟨0, fun _ => 0⟩, [120]⟩ [clockAt (2 ^ 32 - 1)] _ :=
    .accept (a := .name ⟨0, 0⟩ (some (.stamp 15 (clockAt (2 ^ 32 - 1))))) .start rfl rfl
  have inside : ∀ tv ∈ [clockAt (2 ^ 32 - 1)],
      tv.usec < 1000000 ∧ 2 ^ 32 - 1 ≤ tv.micros ∧ tv.micros ≤ 2 ^ 32 := by decide
  have passes := (follows _ _ taken inside 0 (clockAt (2 ^ 32)) (by decide) (by decide)
    (by decide)).1 (by decide)
  exact absurd passes (by decide)

end Sender

end ComputerNetworks.Transfer
