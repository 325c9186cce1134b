import ComputerNetworks.Lib.Runs
import ComputerNetworks.Transfer.SenderInvariant

/-!
# What the send pass sends again

`sendfile` on its own, with whatever acks reach it. The main loop is run one iteration
at a time: a poll, and the send pass behind it. Whatever the acks are, the armed slots
are the first ones of the window and hold the frames of the queue in order; this is
`Windowed`, which asks less than `Aligned`.

The pass goes up from `la_seq` without reducing its counter and stops where the counter
passes `last_window`, which is reduced.
-/

namespace ComputerNetworks.Transfer

open Lib

namespace Sender

/-- The rest of the send pass; `clock` is the time at the slot of each offset. There
are at most `rest` slots left. -/
def sendPass (file : RegularFile) (clock : ℕ → Timeval) : ℕ → Sender → Sender × List Frame
  | 0, s => (s, [])
  | rest + 1, s =>
    match s.phase with
    | .pass offset =>
      let slot := s.sendSlot file (clock offset) offset
      let later := sendPass file clock rest slot.1
      (later.1, slot.2 ++ later.2)
    | _ => (s, [])

/-- What `sendfile` sees in one iteration of one of its loops. -/
inductive Turn
  /-- An iteration of the loop that announces the file name. -/
  | name (now : Timeval) (ack : Option Ack)
  /-- An iteration of the main loop. -/
  | main (scan : ℕ → Timeval) (ack : Option Ack) (now : Timeval) (clock : ℕ → Timeval)

/-- One iteration of the main loop and what it sends. -/
def iteration (file : RegularFile) (scan : ℕ → Timeval) (ack : Option Ack) (now : Timeval)
    (clock : ℕ → Timeval) (s : Sender) : Sender × List Frame :=
  (s.poll scan ack now).sendPass file clock windowLen

/-- The loops of `sendfile`; `none` when it is in the other one, or done. -/
def turn (job : Job) (s : Sender) : Turn → Option Sender
  | .name now ack => if s.phase = .naming then some (s.nameIteration job now ack).1 else none
  | .main scan ack now clock =>
    if s.phase = .top then some (s.iteration job.file scan ack now clock).1 else none

theorem turn_name {job : Job} {s t : Sender} {now : Timeval} {ack : Option Ack}
    (next : s.turn job (.name now ack) = some t) : t = (s.nameIteration job now ack).1 := by
  simp only [turn, Option.ite_none_right_eq_some, Option.some.injEq] at next
  exact next.2.symm

theorem turn_main {job : Job} {s t : Sender} {scan clock : ℕ → Timeval} {ack : Option Ack}
    {now : Timeval} (next : s.turn job (.main scan ack now clock) = some t) :
    t = (s.iteration job.file scan ack now clock).1 := by
  simp only [turn, Option.ite_none_right_eq_some, Option.some.injEq] at next
  exact next.2.symm

/-- The first `q` slots of the window are armed, and the queue holds their frames. Once
`last_window` is set it is the last of them. -/
structure Windowed (file : RegularFile) (q : ℕ) (s : Sender) : Prop where
  laSeq : s.laSeq < seqLen
  window : q ≤ windowLen
  root : s.root.length = q
  seqNum : ∀ j node, s.root[j]? = some node → node.seqNum = (s.laSeq + j) % seqLen
  isSet : ∀ j < seqLen, (s.alarmList ((s.laSeq + j) % seqLen)).isSet ≠ .unset ↔ j < q
  ended : s.lastWindow ≠ -1 → file.size ≤ s.pos
  last : s.lastWindow ≠ -1 → 0 < q → s.lastWindow = (((s.laSeq + q - 1) % seqLen : ℕ) : ℤ)

variable {file : RegularFile} {q m : ℕ} {s t : Sender}

theorem Windowed.congr (h : Windowed file q s) (laSeq : t.laSeq = s.laSeq)
    (lastWindow : t.lastWindow = s.lastWindow) (alarmList : t.alarmList = s.alarmList)
    (root : t.root = s.root) (pos : t.pos = s.pos) : Windowed file q t where
  laSeq := laSeq ▸ h.laSeq
  window := h.window
  root := root ▸ h.root
  seqNum := by
    rw [root, laSeq]
    exact h.seqNum
  isSet := by
    rw [alarmList, laSeq]
    exact h.isSet
  ended := by
    rw [lastWindow, pos]
    exact h.ended
  last := by
    rw [lastWindow, laSeq]
    exact h.last

theorem Windowed.start (file : RegularFile) : Windowed file 0 Sender.start where
  laSeq := by decide
  window := Nat.zero_le _
  root := rfl
  seqNum := by simp [Sender.start]
  isSet := by simp [Sender.start]
  ended ended := absurd rfl ended
  last ended := absurd rfl ended

/-! ### The poll -/

theorem Windowed.checkTimeout (h : Windowed file q s) (scan : ℕ → Timeval) :
    Windowed file q (s.checkTimeout scan) := by
  obtain ⟨alarmList, scanned, same⟩ := checkTimeout_spec scan s
  rw [scanned]
  exact { h with isSet := fun j hj => (not_congr (same _).2).trans (h.isSet j hj) }

/-- `t` is `u` with the first `m` slots of the window released. -/
structure Released (file : RegularFile) (q m : ℕ) (u t : Sender) : Prop where
  windowed : Windowed file (q - m) t
  laSeq : t.laSeq = (u.laSeq + m) % seqLen
  root : t.root = u.root.drop m
  alarmList : ∀ j < seqLen, m ≤ j →
    t.alarmList ((u.laSeq + j) % seqLen) = u.alarmList ((u.laSeq + j) % seqLen)

/-- The arc from `la_seq` to the `m`-th slot. -/
theorem between_arc (small : s.laSeq < seqLen) (positive : 0 < m) (inside : m ≤ windowLen) {j : ℕ}
    (hj : j < windowLen) :
    between s.laSeq ((s.laSeq + m - 1) % seqLen) ((s.laSeq + j) % seqLen) = true ↔ j < m := by
  have narrow : windowLen ≤ seqLen := by decide
  have arc : between (s.laSeq % seqLen) ((s.laSeq + m - 1) % seqLen) ((s.laSeq + j) % seqLen) =
      true ↔ s.laSeq + j ≤ s.laSeq + m - 1 :=
    between_mod (by omega) (by omega) (by omega) (by omega)
  rw [Nat.mod_eq_of_lt small] at arc
  rw [arc]
  omega

/-- The numbers an ack can have to move the window. -/
theorem between_window (small : s.laSeq < seqLen) {ackNum : ℕ} (valid : ackNum < seqLen)
    (inside : between s.laSeq ((s.laSeq + windowLen - 1) % seqLen) ackNum = true) :
    ∃ m, 0 < m ∧ m ≤ windowLen ∧ ackNum = (s.laSeq + m - 1) % seqLen := by
  refine ⟨(ackNum + seqLen - s.laSeq) % seqLen + 1, by omega, ?_, ?_⟩
  · unfold between at inside
    dsimp only [seqLen, windowLen] at *
    split_ifs at inside <;> simp only [decide_eq_true_eq] at inside <;> omega
  · dsimp only [seqLen] at *
    omega

/-- An ack of the `m`-th slot releases it and those before it. -/
theorem Windowed.acceptAck (h : Windowed file q s) (positive : 0 < m) (inside : m ≤ windowLen) :
    Released file q m s (s.acceptAck ((s.laSeq + m - 1) % seqLen)) := by
  have small := h.laSeq
  have window := h.window
  have arc : ∀ j < windowLen, between s.laSeq ((s.laSeq + m - 1) % seqLen)
      ((s.laSeq + j) % seqLen) = true ↔ j < m := fun j hj => between_arc small positive inside hj
  obtain ⟨alarmList, released, slots⟩ :=
    release_prefix (Nat.mod_eq_of_lt small).symm arc le_rfl
  rw [min_eq_right inside] at released slots
  have base : ((s.laSeq + m - 1) % seqLen + 1) % seqLen = (s.laSeq + m) % seqLen := by
    dsimp only [seqLen]
    omega
  have accepted : s.acceptAck ((s.laSeq + m - 1) % seqLen) =
      { s with
        laSeq := (s.laSeq + m) % seqLen, alarmList := alarmList, root := s.root.drop m } := by
    unfold Sender.acceptAck release
    rw [released, base]
  -- slot `j` of the new window is slot `m + j` of the old one
  have shift : ∀ j, ((s.laSeq + m) % seqLen + j) % seqLen = (s.laSeq + (m + j)) % seqLen := by
    intro j
    dsimp only [seqLen]
    omega
  rw [accepted]
  refine ⟨⟨Nat.mod_lt _ (by decide), (Nat.sub_le q m).trans window, ?_, ?_, ?_, h.ended, ?_⟩,
    rfl, rfl, ?_⟩
  · rw [List.length_drop, h.root]
  · intro j node found
    rw [List.getElem?_drop] at found
    rw [h.seqNum _ node found, shift]
  · intro j hj
    dsimp only
    rw [shift]
    by_cases near : m + j < seqLen
    · rw [slots _ near, if_neg (by omega), h.isSet _ near]
      omega
    · -- the slots beyond one revolution are the released ones
      have wrapped : (s.laSeq + (m + j)) % seqLen = (s.laSeq + (m + j - seqLen)) % seqLen := by
        dsimp only [seqLen] at *
        omega
      dsimp only [seqLen, windowLen] at *
      rw [wrapped, slots _ (by omega), if_pos (by omega)]
      simp only [Alarm.clear, ne_eq, not_true_eq_false, false_iff, not_lt]
      omega
  · intro ended more
    rw [h.last ended (by omega)]
    dsimp only [seqLen, windowLen] at *
    omega
  · intro j hj beyond
    dsimp only
    rw [slots j hj, if_neg (by omega)]

/-- An ack that is fresh and lies in the window releases the slots up to its own. -/
def Releases (s : Sender) (ack : Option Ack) (k : ℕ) : Prop :=
  ∃ a, ack = some a ∧ s.lastAckTime < a.time ∧ a.ackNum < seqLen ∧
    between s.laSeq ((s.laSeq + windowLen - 1) % seqLen) a.ackNum = true ∧
      between s.laSeq a.ackNum k = true

/-- What handling `ack` in state `u` leads to: the main loop is left on an ack of all
that was sent, or some slots are released. -/
inductive AckOutcome (file : RegularFile) (q : ℕ) (ack : Option Ack) (u t : Sender) : Prop
  | left (phase : t.phase = .left) (windowed : Windowed file q t)
      (all : ∀ j < q, u.Releases ack ((u.laSeq + j) % seqLen))
  | released (m : ℕ) (released : Released file q m u t)
      (phase : t.phase = .pass 0 ∨ t.phase = .top)
      (count : ∀ j < windowLen, u.Releases ack ((u.laSeq + j) % seqLen) ↔ j < m)

/-- A poll that releases nothing changes clocks and the program counter only. -/
theorem AckOutcome.idle {u : Sender} {ack : Option Ack} (h : Windowed file q u)
    (laSeq : t.laSeq = u.laSeq) (lastWindow : t.lastWindow = u.lastWindow)
    (alarmList : t.alarmList = u.alarmList) (root : t.root = u.root) (pos : t.pos = u.pos)
    (phase : t.phase = .pass 0 ∨ t.phase = .top)
    (nothing : ∀ j, ¬ u.Releases ack ((u.laSeq + j) % seqLen)) : AckOutcome file q ack u t := by
  apply AckOutcome.released 0 _ phase
  · exact fun j _ => iff_of_false (nothing j) (Nat.not_lt_zero j)
  · refine ⟨h.congr laSeq lastWindow alarmList root pos, ?_, root, fun j _ _ => by rw [alarmList]⟩
    rw [laSeq]
    exact (Nat.mod_eq_of_lt h.laSeq).symm

/-- The ack handler. -/
theorem Windowed.handleAck {u : Sender} (h : Windowed file q u) (now : Timeval) (a : Ack) :
    AckOutcome file q (some a) u (u.handleAck now a) := by
  unfold Sender.handleAck
  by_cases fresh : u.lastAckTime < a.time
  · simp only [if_pos fresh]
    by_cases beyond : seqLen ≤ a.ackNum
    · rw [if_pos beyond]
      refine AckOutcome.idle h rfl rfl rfl rfl rfl (.inr rfl) ?_
      rintro j ⟨_, ⟨⟩, -, valid, -⟩
      exact absurd beyond (not_le.mpr valid)
    · rw [if_neg beyond]
      have valid := not_le.mp beyond
      by_cases inside : between u.laSeq ((u.laSeq + windowLen - 1) % seqLen) a.ackNum = true
      · rw [if_pos inside]
        obtain ⟨m, positive, small, number⟩ := between_window h.laSeq valid inside
        have count : ∀ j < windowLen,
            u.Releases (some a) ((u.laSeq + j) % seqLen) ↔ j < m := by
          intro j hj
          rw [← between_arc h.laSeq positive small hj, ← number]
          constructor
          · rintro ⟨_, ⟨⟩, -, -, -, covered⟩
            exact covered
          · exact fun covered => ⟨a, rfl, fresh, valid, inside, covered⟩
        by_cases whole : (a.ackNum : ℤ) = u.lastWindow
        · rw [if_pos whole]
          refine .left rfl (h.congr rfl rfl rfl rfl rfl) fun j hj => ?_
          -- the last armed slot is the acked one, so that the ack covers them all
          have last := h.last (by omega) (by omega)
          have window := h.window
          apply (count j (by omega)).mpr
          rw [← whole, number] at last
          dsimp only [seqLen, windowLen] at *
          omega
        · rw [if_neg whole]
          have stamped : Windowed file q { u with lastAckTime := a.time } :=
            h.congr rfl rfl rfl rfl rfl
          have accepted := stamped.acceptAck positive small
          dsimp only at accepted
          rw [← number] at accepted
          generalize Sender.acceptAck a.ackNum _ = x at accepted ⊢
          exact .released m ⟨accepted.windowed.congr rfl rfl rfl rfl rfl, accepted.laSeq,
            accepted.root, accepted.alarmList⟩ (.inl rfl) count
      · rw [if_neg inside]
        refine AckOutcome.idle h rfl rfl rfl rfl rfl (.inl rfl) ?_
        rintro j ⟨_, ⟨⟩, -, -, inside', -⟩
        exact inside inside'
  · rw [if_neg fresh]
    refine AckOutcome.idle h rfl rfl rfl rfl rfl (.inl rfl) ?_
    rintro j ⟨_, ⟨⟩, fresh', -⟩
    exact fresh fresh'

/-- The poll: a timeout scan and at most one ack. -/
theorem Windowed.poll (h : Windowed file q s) (scan : ℕ → Timeval) (ack : Option Ack)
    (now : Timeval) : AckOutcome file q ack (s.checkTimeout scan) (s.poll scan ack now) := by
  have scanned := h.checkTimeout scan
  cases ack with
  | none =>
    rw [poll_none]
    generalize s.checkTimeout scan = u at scanned ⊢
    refine AckOutcome.idle scanned rfl rfl rfl rfl rfl (.inl rfl) ?_
    rintro j ⟨_, none_, -⟩
    cases none_
  | some a => exact scanned.handleAck now a

/-! ### The send pass -/

/-- Sending the frame of an armed slot again. -/
theorem Windowed.transmit (h : Windowed file q s) {j : ℕ} (hj : j < q) (now : Timeval)
    (node : SendNode) : Windowed file q (s.transmit now ((s.laSeq + j) % seqLen) node).1 := by
  have inside : j < seqLen := (hj.trans_le h.window).trans (by decide)
  refine { h with isSet := fun i hi => ?_ }
  rw [← h.isSet i hi]
  by_cases here : i = j
  · subst here
    have armed := (h.isSet i hi).mpr hj
    simp [Sender.transmit, armed]
  · have apart : (s.laSeq + i) % seqLen ≠ (s.laSeq + j) % seqLen :=
      (slot_eq_iff hi inside).not.mpr here
    simp [Sender.transmit, Function.update_of_ne apart]

/-- Sending a new chunk in the slot behind the armed ones. -/
theorem Windowed.sendNew (h : Windowed file q s) (room : q < windowLen) (now : Timeval) :
    Windowed file (q + 1) ((s.createFrame file q ((s.laSeq + q) % seqLen)).1.transmit now
      ((s.laSeq + q) % seqLen) (s.createFrame file q ((s.laSeq + q) % seqLen)).2).1 := by
  have missing : (getK s.root q).isNone = true := by simp [h.root]
  have size : file.readLen s.pos bufLen = min bufLen (file.size - s.pos) := rfl
  have narrow : windowLen ≤ seqLen := by decide
  refine ⟨h.laSeq, room, ?_, ?_, ?_, ?_, ?_⟩
  · simp [Sender.transmit, Sender.createFrame, h.root]
  · intro j node found
    simp only [Sender.transmit, Sender.createFrame, missing, if_true, enqueue_eq,
      List.set_append_right _ _ le_rfl, Nat.sub_self, List.set_cons_zero] at found ⊢
    -- the new node goes to the end of the queue
    rcases Nat.lt_or_ge j s.root.length with old | new
    · rw [List.getElem?_append_left old] at found
      exact h.seqNum j node found
    · rw [List.getElem?_append_right new] at found
      obtain ⟨at_end, rfl⟩ := List.getElem?_eq_some_iff.mp found
      have last : j = q := by
        rw [List.length_singleton, h.root] at at_end
        rw [h.root] at new
        omega
      subst last
      simp
  · intro j hj
    by_cases here : j = q
    · subst here
      simp [Sender.transmit, Sender.createFrame]
    · have apart : (s.laSeq + j) % seqLen ≠ (s.laSeq + q) % seqLen :=
        (slot_eq_iff hj (room.trans_le narrow)).not.mpr here
      have old := h.isSet j hj
      simp only [Sender.transmit, Sender.createFrame, Function.update_of_ne apart]
      rw [old]
      omega
  · simp only [Sender.transmit, Sender.createFrame, size]
    split_ifs with short
    · intro _
      omega
    · intro ended
      have := h.ended ended
      omega
  · simp only [Sender.transmit, Sender.createFrame, size]
    split_ifs with short
    · exact fun _ _ => rfl
    · -- behind the end of the file every read is short
      intro ended
      have := h.ended ended
      dsimp only [bufLen] at short
      omega

/-- A slot of the pass keeps the law. -/
theorem Windowed.sendSlot (h : Windowed file q s) {offset : ℕ} (hoffset : offset ≤ q)
    (hwindow : offset < windowLen) (now : Timeval) :
    ∃ q', Windowed file q' (s.sendSlot file now offset).1 ∧
      ∀ next, (s.sendSlot file now offset).1.phase = .pass next → next ≤ q' ∧ next < windowLen := by
  have inside : offset < seqLen := hwindow.trans (by decide)
  have armed := h.isSet offset inside
  unfold Sender.sendSlot
  dsimp only
  by_cases stop : s.lastWindow ≠ -1 ∧ s.lastWindow < ((s.laSeq + offset : ℕ) : ℤ)
  · rw [if_pos stop]
    exact ⟨q, h.congr rfl rfl rfl rfl rfl, fun next at_next => nomatch at_next⟩
  rw [if_neg stop]
  have moved : Windowed file q { s with
      phase := if offset + 1 < windowLen then .pass (offset + 1) else .top } :=
    h.congr rfl rfl rfl rfl rfl
  have counted : ∀ next, (if offset + 1 < windowLen then SenderPhase.pass (offset + 1) else .top) =
      .pass next → next = offset + 1 ∧ offset + 1 < windowLen := by
    intro next at_next
    split_ifs at at_next with more
    cases at_next
    exact ⟨rfl, more⟩
  cases flag : (s.alarmList ((s.laSeq + offset) % seqLen)).isSet with
  | waiting =>
    have sent : offset < q := armed.mp (by simp [flag])
    refine ⟨q, moved, fun next at_next => ?_⟩
    obtain ⟨rfl, more⟩ := counted next at_next
    exact ⟨sent, more⟩
  | timedOut =>
    have sent : offset < q := armed.mp (by simp [flag])
    dsimp only
    cases getK s.root offset with
    | none =>
      refine ⟨q, moved, fun next at_next => ?_⟩
      obtain ⟨rfl, more⟩ := counted next at_next
      exact ⟨sent, more⟩
    | some node =>
      refine ⟨q, moved.transmit sent now node, fun next at_next => ?_⟩
      obtain ⟨rfl, more⟩ := counted next at_next
      exact ⟨sent, more⟩
  | unset =>
    -- the pass has not gone beyond the armed slots, so that this is the first one free
    have fresh : offset = q := by
      have := mt armed.mpr (by simp [flag])
      omega
    subst fresh
    refine ⟨offset + 1, moved.sendNew hwindow now, fun next at_next => ?_⟩
    obtain ⟨rfl, more⟩ := counted next at_next
    exact ⟨le_rfl, more⟩

/-- So does the whole pass. -/
theorem Windowed.sendPass (h : Windowed file q s)
    (counter : ∀ offset, s.phase = .pass offset → offset ≤ q ∧ offset < windowLen)
    (clock : ℕ → Timeval) (rest : ℕ) :
    ∃ q', Windowed file q' (s.sendPass file clock rest).1 := by
  induction rest generalizing q s with
  | zero => exact ⟨q, h⟩
  | succ rest ih =>
    unfold Sender.sendPass
    split
    next offset phase =>
      obtain ⟨behind, inside⟩ := counter offset phase
      obtain ⟨q', next, counter'⟩ := h.sendSlot behind inside (clock offset)
      exact ih next counter'
    next => exact ⟨q, h⟩

/-- Where the pass is cut before its first slot. -/
theorem sendPass_cut (phase : s.phase = .pass 0) (ended : s.lastWindow ≠ -1)
    (wrapped : s.lastWindow < s.laSeq) (clock : ℕ → Timeval) (rest : ℕ) :
    (s.sendPass file clock rest).2 = [] := by
  cases rest with
  | zero => rfl
  | succ rest =>
    have stop : s.sendSlot file (clock 0) 0 = ({ s with phase := .top }, []) :=
      if_pos ⟨ended, by simpa using wrapped⟩
    unfold Sender.sendPass
    rw [phase]
    dsimp only
    rw [stop]
    cases rest <;> rfl

/-- The armed slots lie before `last_window` when that is not below `la_seq`. -/
theorem Windowed.not_cut (h : Windowed file q s)
    (unwrapped : s.lastWindow = -1 ∨ (s.laSeq : ℤ) ≤ s.lastWindow) {offset : ℕ} (armed : offset < q) :
    ¬ (s.lastWindow ≠ -1 ∧ s.lastWindow < ((s.laSeq + offset : ℕ) : ℤ)) := by
  rintro ⟨ended, beyond⟩
  have last := h.last ended (by omega)
  have start := h.laSeq
  have window := h.window
  dsimp only [seqLen, windowLen] at *
  omega

/-- From there on, the pass sends every timed-out slot that is still before it. -/
theorem Windowed.sendPass_covers (h : Windowed file q s)
    (unwrapped : s.lastWindow = -1 ∨ (s.laSeq : ℤ) ≤ s.lastWindow) {offset rest : ℕ}
    (phase : s.phase = .pass offset) (total : offset + rest = windowLen) (clock : ℕ → Timeval)
    {i : ℕ} (later : offset ≤ i) (armed : i < q)
    (due : (s.alarmList ((s.laSeq + i) % seqLen)).isSet = .timedOut) :
    ∃ node, s.root[i]? = some node ∧
      node.frame (s.alarmList ((s.laSeq + i) % seqLen)).size ∈ (s.sendPass file clock rest).2 := by
  have window := h.window
  induction rest generalizing s offset with
  | zero => omega
  | succ rest ih =>
    have here : offset < q := by omega
    have inside : offset < seqLen := (here.trans_le window).trans (by decide)
    have go := h.not_cut unwrapped here
    have set := (h.isSet offset inside).mpr here
    have found : ∃ node, s.root[offset]? = some node :=
      ⟨_, List.getElem?_eq_getElem (by rw [h.root]; exact here)⟩
    obtain ⟨node, found⟩ := found
    -- the program counter moves on unless this is the last slot
    have moved : ∀ i, offset < i → i < q →
        (if offset + 1 < windowLen then SenderPhase.pass (offset + 1) else .top) =
          .pass (offset + 1) := fun i _ _ => if_pos (by omega)
    unfold Sender.sendPass
    rw [phase]
    dsimp only
    unfold Sender.sendSlot
    dsimp only
    rw [if_neg go]
    cases flag : (s.alarmList ((s.laSeq + offset) % seqLen)).isSet with
    | unset => exact absurd flag set
    | waiting =>
      have apart : offset ≠ i := by
        rintro rfl
        rw [flag] at due
        cases due
      dsimp only
      rw [List.nil_append, moved i (by omega) armed]
      have next : Windowed file q { s with phase := .pass (offset + 1) } :=
        h.congr rfl rfl rfl rfl rfl
      exact ih next unwrapped rfl (by omega) (by omega) due
    | timedOut =>
      dsimp only
      rw [getK_eq, found]
      -- a slot before `i` that is sent again leaves that of `i` as it is
      by_cases now_ : offset = i
      · subst now_
        exact ⟨node, found, List.mem_append_left _ (List.mem_singleton.mpr rfl)⟩
      · have apart : (s.laSeq + i) % seqLen ≠ (s.laSeq + offset) % seqLen :=
          (slot_eq_iff ((armed.trans_le window).trans (by decide)) inside).not.mpr (Ne.symm now_)
        rw [moved i (by omega) armed]
        have next : Windowed file q { s with phase := .pass (offset + 1) } :=
          h.congr rfl rfl rfl rfl rfl
        have sent := next.transmit here (clock offset) node
        have same : (({ s with phase := .pass (offset + 1) } : Sender).transmit (clock offset)
            ((s.laSeq + offset) % seqLen) node).1.alarmList ((s.laSeq + i) % seqLen) =
              s.alarmList ((s.laSeq + i) % seqLen) := Function.update_of_ne apart ..
        obtain ⟨node', found', member⟩ := ih sent unwrapped rfl (by omega) (by omega)
          ((congrArg Alarm.isSet same).trans due)
        exact ⟨node', found', List.mem_append_right _ (same ▸ member)⟩

/-! ### Coverage -/

/-- Every slot of the window that the timeout scan marks, and that no ack releases, has
its frame in the queue, and the pass of the same iteration sends it. -/
def Resends (job : Job) (s : Sender) : Turn → Prop
  | .name _ _ => True
  | .main scan ack now clock => ∀ j < windowLen,
    ((s.checkTimeout scan).alarmList ((s.laSeq + j) % seqLen)).isSet = .timedOut →
    ¬ s.Releases ack ((s.laSeq + j) % seqLen) →
      ∃ node, s.root[j]? = some node ∧ node.seqNum = (s.laSeq + j) % seqLen ∧
        node.frame (s.alarmList ((s.laSeq + j) % seqLen)).size ∈
          (s.iteration job.file scan ack now clock).2

/-- A slot of the window is timed out. -/
def Due (s : Sender) : Prop :=
  ∃ i < windowLen, (s.alarmList ((s.laSeq + i) % seqLen)).isSet = .timedOut

/-- If a slot is still timed out behind the poll, the pass starts, and the slots from
`la_seq` to `last_window` do not wrap. -/
def PassUnwrapped (s : Sender) : Turn → Prop
  | .name _ _ => True
  | .main scan ack now _ =>
    let t := s.poll scan ack now
    t.phase ≠ .left → t.Due →
      t.phase = .pass 0 ∧ (t.lastWindow = -1 ∨ (t.laSeq : ℤ) ≤ t.lastWindow)

/-- Both loops keep the law. -/
theorem Windowed.turn {job : Job} (h : Windowed job.file q s) {a : Turn}
    (next : s.turn job a = some t) : ∃ q', Windowed job.file q' t := by
  cases a with
  | name now ack =>
    obtain rfl := turn_name next
    unfold Sender.nameIteration
    dsimp only
    refine ⟨q, ?_⟩
    split <;> split_ifs <;> exact h.congr rfl rfl rfl rfl rfl
  | main scan ack now clock =>
    obtain rfl := turn_main next
    unfold iteration
    have polled := h.poll scan ack now
    generalize s.poll scan ack now = t at polled
    -- behind the poll the pass starts at the first slot or not at all
    cases polled with
    | left phase windowed _ =>
      exact windowed.sendPass (fun offset bad => nomatch phase.symm.trans bad) clock windowLen
    | released m released phase _ =>
      refine released.windowed.sendPass (fun offset at_offset => ?_) clock windowLen
      rcases phase with pass | top
      · cases pass.symm.trans at_offset
        exact ⟨Nat.zero_le _, by decide⟩
      · cases top.symm.trans at_offset

/-- The pass behind a poll that leaves slots timed out sends nothing when it is skipped
or cut. -/
theorem iteration_silent {scan : ℕ → Timeval} {ack : Option Ack} {now : Timeval}
    (phase : (s.poll scan ack now).phase = .pass 0 ∨ (s.poll scan ack now).phase = .top)
    (cut : ¬ ((s.poll scan ack now).phase = .pass 0 ∧ ((s.poll scan ack now).lastWindow = -1 ∨
      ((s.poll scan ack now).laSeq : ℤ) ≤ (s.poll scan ack now).lastWindow)))
    (clock : ℕ → Timeval) : (s.iteration file scan ack now clock).2 = [] := by
  unfold iteration
  generalize s.poll scan ack now = t at phase cut
  -- the pass is cut at once, or the iteration has skipped it
  rcases phase with pass | top
  · have wrapped := not_or.mp fun unwrapped => cut ⟨pass, unwrapped⟩
    exact sendPass_cut pass wrapped.1 (not_le.mp wrapped.2) clock windowLen
  · unfold sendPass
    rw [top]

/-- A slot that was not released keeps its timer and its frame. -/
theorem Released.slot {u : Sender} (h : Released file q m u t) {j : ℕ} (kept : m ≤ j)
    (inside : j < seqLen) :
    t.alarmList ((t.laSeq + (j - m)) % seqLen) = u.alarmList ((u.laSeq + j) % seqLen) ∧
      t.root[j - m]? = u.root[j]? := by
  have shift : (t.laSeq + (j - m)) % seqLen = (u.laSeq + j) % seqLen := by
    rw [h.laSeq, Nat.mod_add_mod]
    congr 1
    omega
  refine ⟨by rw [shift, h.alarmList j inside kept], ?_⟩
  rw [h.root, List.getElem?_drop]
  congr 1
  omega

/-- One iteration sends again what it must exactly when the pass is not cut by the wrap. -/
theorem Windowed.resends_iff {job : Job} (h : Windowed job.file q s) (a : Turn) :
    Resends job s a ↔ PassUnwrapped s a := by
  cases a with
  | name now ack => exact Iff.rfl
  | main scan ack now clock =>
    have scanned := h.checkTimeout scan
    have window := h.window
    have narrow : windowLen ≤ seqLen := by decide
    obtain ⟨alarmList, same, sizes⟩ := checkTimeout_spec scan s
    have base : (s.checkTimeout scan).laSeq = s.laSeq := by rw [same]
    have root : (s.checkTimeout scan).root = s.root := by rw [same]
    have size : ∀ k, ((s.checkTimeout scan).alarmList k).size = (s.alarmList k).size :=
      fun k => by rw [same, (sizes k).1]
    have releases : ∀ k, (s.checkTimeout scan).Releases ack k ↔ s.Releases ack k :=
      fun k => by rw [same, Releases, Releases]
    cases h.poll scan ack now with
    | left phase _ all =>
      -- the main loop is left only on an ack of every armed slot
      refine iff_of_true (fun j hj due kept => ?_) fun stays => absurd phase stays
      have armed := (scanned.isSet j (by omega)).mp (by rw [base, due]; decide)
      exact absurd ((releases _).mp (base ▸ all j armed)) kept
    | released m released phase count =>
      constructor
      · rintro resends - ⟨i, hi, due⟩
        by_contra cut
        have armed := (released.windowed.isSet i (by omega)).mp (by rw [due]; decide)
        obtain ⟨slot, -⟩ := released.slot (j := i + m) (by omega) (by omega)
        rw [Nat.add_sub_cancel] at slot
        -- the slot was not released, and nothing is sent
        have kept : ¬ s.Releases ack ((s.laSeq + (i + m)) % seqLen) := by
          rw [← releases, ← base, count (i + m) (by omega)]
          omega
        have due' := (congrArg Alarm.isSet slot).symm.trans due
        rw [base] at due'
        obtain ⟨node, -, -, member⟩ := resends (i + m) (by omega) due' kept
        rw [iteration_silent phase cut clock] at member
        cases member
      · intro unwrapped j hj due kept
        have armed := (scanned.isSet j (by omega)).mp (by rw [base, due]; decide)
        have beyond : m ≤ j := by
          rw [← releases, ← base, count j hj] at kept
          omega
        obtain ⟨slot, queued⟩ := released.slot beyond (by omega)
        rw [base] at slot
        have due' := (congrArg Alarm.isSet slot).trans due
        have stays : (s.poll scan ack now).phase ≠ .left := by
          rcases phase with pass | top <;> simp [*]
        obtain ⟨pass, order⟩ := unwrapped stays ⟨j - m, by omega, due'⟩
        obtain ⟨node, found, member⟩ := released.windowed.sendPass_covers order pass (Nat.zero_add _) clock
          (Nat.zero_le _) (by omega) due'
        rw [queued, root] at found
        rw [slot, size] at member
        exact ⟨node, found, h.seqNum j node found, member⟩

/-- Along every run, whatever acks arrive, each iteration sends again all slots that it
must exactly when no pass that has such slots is cut by the wrap. -/
theorem resends_iff_unwrapped (job : Job) (as : List Turn) :
    EachStep (turn job) (fun s a _ => Resends job s a) Sender.start as ↔
      EachStep (turn job) (fun s a _ => PassUnwrapped s a) Sender.start as := by
  have start : ∃ q, Windowed job.file q Sender.start := ⟨0, .start job.file⟩
  have preserved : ∀ s a t, (∃ q, Windowed job.file q s) → s.turn job a = some t →
      ∃ q, Windowed job.file q t := fun _ _ _ ⟨_, h⟩ next => h.turn next
  exact EachStep.iff_of_invariant (fun s a t inv next _ => preserved s a t inv next)
    (fun _ a _ ⟨_, h⟩ _ => h.resends_iff a) start

/-- An iteration that sends nothing misses the slot at `la_seq` if that is timed out. -/
theorem not_resends {job : Job} {s : Sender} {scan : ℕ → Timeval} {ack : Option Ack}
    {now : Timeval} {clock : ℕ → Timeval} (silent : (s.iteration job.file scan ack now clock).2 = [])
    (due : ((s.checkTimeout scan).alarmList (s.laSeq % seqLen)).isSet = .timedOut)
    (kept : ¬ s.Releases ack (s.laSeq % seqLen)) : ¬ Resends job s (.main scan ack now clock) := by
  intro resends
  rw [← Nat.add_zero s.laSeq] at due kept
  obtain ⟨node, -, -, member⟩ := resends 0 (by decide) due kept
  rw [silent] at member
  cases member

/-- A file of exactly 16 full chunks: chunk 16, the last one, is empty and has number 0. -/
def lostJob : Job := ⟨⟨16 * bufLen, fun _ => 0⟩, [120]⟩

/-- The name and the chunks up to the last one are sent, and the first 9 acknowledged. -/
def lostTail : List Turn :=
  let t : Timeval := ⟨0, 0⟩
  let main (ack : Option Ack) : Turn := .main (fun _ => t) ack t (fun _ => t)
  [.name t none, .name t (some (.stamp 15 ⟨0, 1⟩)), main none, main (some (.stamp 7 ⟨0, 2⟩)),
    main (some (.stamp 8 ⟨0, 3⟩))]

/-- All that is left is lost. -/
def lostTimeout : Turn := .main (fun _ => ⟨1, 0⟩) none ⟨1, 0⟩ (fun _ => ⟨1, 0⟩)

set_option maxRecDepth 10000 in
/-- When the last eight chunks time out, the pass sends none of them, as `last_window` is
0 and `la_seq` is 9. -/
theorem lostTail_never_resent : ¬ EachStep (turn lostJob) (fun s a _ => Resends lostJob s a)
    Sender.start (lostTail ++ [lostTimeout]) := by
  intro each
  have ends : (exec (turn lostJob) Sender.start lostTail).map (fun s =>
      ((s.checkTimeout fun _ => ⟨1, 0⟩).alarmList (s.laSeq % seqLen)).isSet) = some .timedOut := by
    decide +kernel
  have silent : (exec (turn lostJob) Sender.start lostTail).map (fun s =>
      (s.iteration lostJob.file (fun _ => ⟨1, 0⟩) none ⟨1, 0⟩ (fun _ => ⟨1, 0⟩)).2.length) =
        some 0 := by
    decide +kernel
  have top : (exec (turn lostJob) Sender.start lostTail).map Sender.phase = some .top := by
    decide +kernel
  obtain ⟨s, run, due⟩ := Option.map_eq_some_iff.mp ends
  rw [run, Option.map_some, Option.some.injEq] at silent top
  have next : s.turn lostJob lostTimeout = some (s.iteration lostJob.file (fun _ => ⟨1, 0⟩) none
      ⟨1, 0⟩ (fun _ => ⟨1, 0⟩)).1 := if_pos top
  rw [List.length_eq_zero_iff] at silent
  exact not_resends silent due (fun ⟨_, none_, _⟩ => nomatch none_) (each.last run next)

end Sender

end ComputerNetworks.Transfer
