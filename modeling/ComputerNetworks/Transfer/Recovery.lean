import ComputerNetworks.Transfer.Progress

/-!
# Recovery of a transfer

Whatever has happened, and if everything that is under way is lost, a transfer can still be
completed, provided that no window that reaches the last chunk wraps around the sequence
numbers: one chunk after the other is asked for, sent again and written. For every other file
there is a state without a way out: the last window is created and lost, and the send pass,
which compares the reduced number of the last frame with one that is not reduced, stops before
its first slot for ever.
-/

namespace ComputerNetworks.Transfer

open Lib

namespace System

variable {job : Job} {q : ℕ} {sys t : System}

/-- Every datagram under way is lost. -/
def lose (sys : System) : System := { sys with frames := [], acks := [] }

/-- Some continuation ends the sender's main loop, and the receiver has noticed that it has
the whole file. -/
def Recovers (job : Job) (sys : System) : Prop :=
  ∃ t, Leads (step job) sys t ∧ t.sender.phase = .left ∧ t.receiver.readyExit = 2 ∧
    t.receiver.written = job.file.bytes

theorem Recovers.of_leads (leads : Leads (step job) sys t) (h : t.Recovers job) : sys.Recovers job := by
  obtain ⟨u, rest, left, exit, written⟩ := h
  exact ⟨u, leads.trans rest, left, exit, written⟩

theorem Joint.written_of_left (h : sys.Joint job q) (left : sys.sender.phase = .left) :
    sys.receiver.written = job.file.bytes := by
  rw [h.written, h.left left, List.take_of_length_le (by simp [RegularFile.chunks]),
    RegularFile.chunks_flatten]

/-- The two laws that every step keeps. -/
structure Steady (job : Job) (sys : System) : Prop where
  inv : sys.Inv job
  lively : sys.Lively

theorem Steady.start (job : Job) (clock : ℕ) : (start clock).Steady job :=
  ⟨.start job clock, .start clock⟩

theorem Steady.step (h : sys.Steady job) {a : Action} (next : step job sys a = some t) :
    t.Steady job :=
  ⟨h.inv.step next, h.lively.step h.inv next⟩

theorem Steady.leads (h : sys.Steady job) (leads : Leads (System.step job) sys t) : t.Steady job :=
  leads.invariant (fun _ _ _ steady next => steady.step next) h

/-- Neither law relies on the datagrams under way. -/
theorem Steady.lose (h : sys.Steady job) : sys.lose.Steady job := by
  obtain ⟨⟨q, joint⟩, lively⟩ := h
  refine ⟨⟨q, { joint with frames := ?_, acks := ⟨[], ?_⟩ }⟩, { lively with silent := ?_ }⟩
  · exact fun frame member => (List.not_mem_nil member).elim
  · constructor <;> simp [System.lose]
  · exact fun naming => ⟨(lively.silent naming).1, rfl⟩

/-! ### The file name -/

/-- The sender announces the file name, again if it must. -/
theorem exists_name (job : Job) (l : sys.Lively) (naming : sys.sender.phase = .naming) :
    ∃ t, Leads (step job) sys t ∧ Sends sys t ∧ t.sender.phase = .naming ∧
      job.nameFrame ∈ t.frames := by
  obtain ⟨now, elapsed⟩ := Sender.exists_elapsed sys.sender.startSec sys.sender.startUsec
  have patient := l.patient
  have due : (sys.sender.firstTime ||
      decide (sys.sender.timeout < now.elapsed sys.sender.startSec sys.sender.startUsec)) = true := by
    rw [elapsed, decide_eq_true (by omega), Bool.or_true]
  have next : step job sys (.name now none) = some (sys.sent (sys.sender.nameIteration job now none)) := by
    simp [move, naming, pick]
  refine ⟨_, .single next, sends_sent _ _, ?_, ?_⟩
  · change (sys.sender.nameIteration job now none).1.phase = .naming
    simp only [Sender.nameIteration, due, if_true]
    exact naming
  · change _ ∈ _ ++ (sys.sender.nameIteration job now none).2
    simp only [Sender.nameIteration, due, if_true]
    exact List.mem_append_right _ (List.mem_singleton_self _)

/-- The receiver takes it and acknowledges it. -/
theorem exists_accept (h : sys.Joint job q) (l : sys.Lively) (naming : sys.receiver.phase = .naming)
    (time : sys.HasTime 1) (member : job.nameFrame ∈ sys.frames) :
    ∃ t ack, Leads (step job) sys t ∧ Acknowledged sys t ack ∧ t.receiver.phase = .data := by
  obtain ⟨k, inside, found⟩ := List.getElem_of_mem member
  have ticks := ticks_tick time
  have at_k : sys.frames[k]? = some job.nameFrame := found ▸ List.getElem?_eq_getElem inside
  have next : step job sys (.accept k sys.tick) =
      some (sys.acked sys.tick (sys.receiver.nameIteration job.nameFrame sys.tick)) := by
    simp [System.step, onTime, move, naming, ticks, at_k]
  obtain ⟨start, base⟩ := h.naming naming
  refine ⟨_, _, .single next, ⟨rfl, rfl, rfl, ?_, rfl, Sender.clockAt_micros _, rfl, rfl, fun data => ?_,
    ?_, rfl, ?_⟩, rfl⟩
  · change unwrap seqLen sys.rcvBase sys.receiver.laSeq = sys.rcvBase
    rw [start, base]
    rfl
  · rw [naming] at data
    cases data
  · rw [base]
    rfl
  · have stamped := l.stamped
    unfold HasTime at time
    change _ < (Ack.stamp _ _).time
    rw [Ack.stamp_time, tick, Sender.clockAt_micros]
    omega

/-- A fresh ack of the file name starts the sender's main loop. -/
theorem exists_named (job : Job) (naming : sys.sender.phase = .naming) {ack : Ack} (member : ack ∈ sys.acks)
    (fresh : sys.sender.lastAckTime < ack.time) (type : ack.type = 1) (number : ack.ackNum = seqLen - 1) :
    ∃ t, Leads (step job) sys t ∧ Sends sys t ∧ t.sender.phase = .top := by
  obtain ⟨k, inside, found⟩ := List.getElem_of_mem member
  have at_k : sys.acks[k]? = some ack := found ▸ List.getElem?_eq_getElem inside
  have next : step job sys (.name ⟨0, 0⟩ (some k)) =
      some (sys.sent (sys.sender.nameIteration job ⟨0, 0⟩ (some ack))) := by
    simp [move, naming, pick, at_k]
  refine ⟨_, .single next, sends_sent _ _, ?_⟩
  change (sys.sender.nameIteration job ⟨0, 0⟩ (some ack)).1.phase = .top
  have taken : sys.sender.lastAckTime < ack.time ∧ ack.type = 1 ∧ ack.ackNum = seqLen - 1 :=
    ⟨fresh, type, number⟩
  unfold Sender.nameIteration
  dsimp only
  split_ifs <;> rfl

/-- Both programs are in their main loops, or the receiver sends its last acks. -/
structure Ready (job : Job) (sys : System) : Prop where
  steady : sys.Steady job
  top : sys.sender.phase = .top
  going : sys.receiver.phase = .data ∨ ∃ n, sys.receiver.phase = .tail (n + 1)

/-- The receiver has written and buffered nothing, within one tick of its clock. -/
structure SameOutput (sys t : System) : Prop where
  rcvBase : t.rcvBase = sys.rcvBase
  received : t.receiver.received = sys.receiver.received
  clock : t.clock = sys.clock ∨ t.clock = sys.clock + 1

theorem Sends.sameOutput (h : Sends sys t) : SameOutput sys t :=
  ⟨h.rcvBase, by rw [h.receiver], .inl h.clock⟩

/-- When the receiver has acknowledged between two moves of the sender. -/
theorem Acknowledged.sameOutput {a b : System} {ack : Ack} (before : Sends sys a)
    (h : Acknowledged a b ack) (behind : Sends b t) : SameOutput sys t where
  rcvBase := behind.rcvBase.trans (h.rcvBase.trans before.rcvBase)
  received := by rw [behind.receiver, h.received, before.receiver]
  clock := .inr (by rw [behind.clock, h.clock, before.clock])

theorem Acknowledged.mem {ack : Ack} (h : Acknowledged sys t ack) : ack ∈ t.acks := by
  rw [h.acks]
  exact List.mem_append_right _ (List.mem_singleton_self ack)

/-- The end test has not been passed before the last chunk is written. -/
theorem Joint.data_of_unfinished (h : sys.Joint job q) (unfinished : sys.rcvBase ≤ job.file.lastChunk)
    (started : sys.receiver.phase ≠ .naming) : sys.receiver.phase = .data := by
  refine h.closed.mpr ⟨started, fun exit => ?_⟩
  have whole := h.written_of_exit exit
  rw [h.lastId] at whole
  omega

/-- Whatever state they are in, the programs get into their main loops. -/
theorem exists_ready (h : sys.Steady job) (time : sys.HasTime 1) (unleft : sys.sender.phase ≠ .left)
    (unended : sys.receiver.phase ≠ .tail 0) :
    ∃ t, Leads (step job) sys t ∧ t.Ready job ∧ SameOutput sys t := by
  by_cases asleep : sys.receiver.phase = .naming
  · -- then the sender announces the file name, too
    obtain ⟨naming, -⟩ := h.lively.silent asleep
    obtain ⟨a, leads, sends, naming', member⟩ := exists_name job h.lively naming
    have steady := h.leads leads
    obtain ⟨q, joint⟩ := steady.inv
    rw [← sends.receiver] at asleep
    obtain ⟨b, ack, leads', acked, data⟩ :=
      exists_accept joint steady.lively asleep (time.later (c := 0) sends.clock) member
    rw [← acked.sender] at naming'
    have number : ack.ackNum = seqLen - 1 := by
      rw [acked.number, (joint.naming asleep).2]
      rfl
    obtain ⟨t, leads'', sends', top⟩ :=
      exists_named job naming' acked.mem (acked.sender ▸ acked.fresh) acked.type number
    have all := leads.trans (leads'.trans leads'')
    exact ⟨t, all, ⟨h.leads all, top, .inl (sends'.receiver ▸ data)⟩, acked.sameOutput sends sends'⟩
  · obtain ⟨q, joint⟩ := h.inv
    have going : sys.receiver.phase = .data ∨ ∃ n, sys.receiver.phase = .tail (n + 1) := by
      cases phase : sys.receiver.phase with
      | naming => exact absurd phase asleep
      | data => exact .inl rfl
      | tail n =>
        cases n with
        | zero => exact absurd phase unended
        | succ n => exact .inr ⟨n, rfl⟩
    cases phase : sys.sender.phase with
    | naming =>
      -- nothing is outstanding, so that nothing is written
      obtain ⟨root, first⟩ := h.lively.named phase
      have none_ : q = 0 := by
        have length := congrArg List.length joint.sender.root
        rw [root, List.length_map, List.length_range] at length
        exact length.symm
      have base : sys.rcvBase = 0 := by
        have above := joint.above
        omega
      obtain ⟨a, ack, leads, acked⟩ := exists_ack joint h.lively time going
      have number : ack.ackNum = seqLen - 1 := by
        rw [acked.number, base]
        rfl
      rw [← acked.sender] at phase
      obtain ⟨t, leads', sends, top⟩ :=
        exists_named job phase acked.mem (acked.sender ▸ acked.fresh) acked.type number
      have all := leads.trans leads'
      have data := acked.phase (joint.data_of_unfinished (base ▸ Nat.zero_le _) asleep)
      exact ⟨t, all, ⟨h.leads all, top, .inl (sends.receiver ▸ data)⟩,
        acked.sameOutput (.refl sys) sends⟩
    | top =>
      exact ⟨sys, .refl sys, ⟨h, phase, going⟩, rfl, rfl, .inl rfl⟩
    | pass offset =>
      obtain ⟨t, leads, sends, top, -⟩ := exists_top h.inv phase
      exact ⟨t, leads, ⟨h.leads leads, top, sends.receiver ▸ going⟩, sends.sameOutput⟩
    | left => exact absurd phase unleft

/-! ### One chunk after the other -/

theorem Ready.data (h : sys.Ready job) (unfinished : sys.rcvBase ≤ job.file.lastChunk) :
    sys.receiver.phase = .data := by
  obtain ⟨q, joint⟩ := h.steady.inv
  refine joint.data_of_unfinished unfinished fun naming => ?_
  obtain data | ⟨n, tail⟩ := h.going
  · cases naming.symm.trans data
  · cases naming.symm.trans tail

/-- The sender learns what has been written, and fills its window behind it. -/
theorem Ready.exists_synced (h : sys.Ready job) (time : sys.HasTime 1)
    (unfinished : sys.rcvBase ≤ job.file.lastChunk) :
    ∃ t, Leads (step job) sys t ∧ t.Ready job ∧ t.rcvBase = sys.rcvBase ∧ t.sndBase = sys.rcvBase ∧
      t.receiver.received = sys.receiver.received ∧ t.clock = sys.clock + 1 ∧ t.Filled job := by
  obtain ⟨q, joint⟩ := h.steady.inv
  obtain ⟨a, ack, leads, acked⟩ := exists_ack joint h.steady.lively time h.going
  have steady := h.steady.leads leads
  obtain ⟨p, joint'⟩ := steady.inv
  have data := acked.phase (h.data unfinished)
  obtain ⟨t, leads', sends, top, base, filled⟩ := exists_take joint' (acked.sender ▸ h.top) acked.mem
    (acked.rcvBase ▸ acked.number) (acked.sender ▸ acked.fresh) (acked.rcvBase ▸ unfinished)
    (fun _ => ⟨0, 0⟩) ⟨0, 0⟩
  refine ⟨t, leads.trans leads', ⟨steady.leads leads', top, .inl (sends.receiver ▸ data)⟩,
    sends.rcvBase.trans acked.rcvBase, base.trans acked.rcvBase, ?_, sends.clock.trans acked.clock, filled⟩
  rw [sends.receiver, acked.received]

/-- The first missing chunk is asked for, sent again and written. -/
theorem Ready.exists_round (h : sys.Ready job) (time : sys.HasTime 2)
    (small : sys.rcvBase + 1 < 2 ^ 32) (unfinished : sys.rcvBase ≤ job.file.lastChunk)
    (order : job.file.lastChunk < sys.rcvBase + windowLen →
      sys.rcvBase % seqLen ≤ job.file.lastChunk % seqLen) :
    ∃ t, Leads (step job) sys t ∧ t.Ready job ∧ sys.rcvBase < t.rcvBase ∧ t.clock = sys.clock + 2 ∧
      ((∀ k, sys.receiver.received k = false) →
        t.rcvBase = sys.rcvBase + 1 ∧ ∀ k, t.receiver.received k = false) := by
  obtain ⟨a, leads, ready, rcvBase, sndBase, received, clock, -⟩ :=
    h.exists_synced (time.mono (by decide)) unfinished
  obtain ⟨q, joint⟩ := ready.steady.inv
  obtain ⟨b, leads', sends, top, base, member⟩ :=
    exists_resend joint ready.steady.lively (sndBase ▸ order) ready.top
  have steady := ready.steady.leads leads'
  obtain ⟨p, joint'⟩ := steady.inv
  have same : b.rcvBase = sys.rcvBase := sends.rcvBase.trans rcvBase
  have time' : b.HasTime 1 := time.later (c := 1) (sends.clock.trans clock)
  have data : b.receiver.phase = .data := sends.receiver ▸ ready.data (rcvBase ▸ unfinished)
  have missing : job.file.frame b.rcvBase ∈ b.frames := by
    rw [same, ← sndBase]
    exact member
  obtain ⟨t, leads'', sender, clock', more, phase, alone⟩ :=
    exists_deliver joint' data time' (same ▸ small) missing
  refine ⟨t, leads.trans (leads'.trans leads''), ⟨steady.leads leads'', sender ▸ top, ?_⟩, same ▸ more, ?_,
    fun idle => ?_⟩
  · split_ifs at phase with exit
    · exact .inr ⟨399, phase⟩
    · exact .inl phase
  · rw [clock', sends.clock, clock]
  · rw [← same]
    refine alone fun k => ?_
    rw [sends.receiver, received]
    exact idle k

/-- The receiver has noticed the end of the file if it has written it. -/
def Noticed (job : Job) (sys : System) : Prop :=
  sys.rcvBase = job.file.lastChunk + 1 → sys.receiver.readyExit = 2

/-- Once the whole file is written the sender learns of it. -/
theorem Ready.recovers (h : sys.Ready job) (time : sys.HasTime 1)
    (whole : sys.rcvBase = job.file.lastChunk + 1) (noticed : sys.Noticed job) : sys.Recovers job := by
  obtain ⟨q, joint⟩ := h.steady.inv
  obtain ⟨a, ack, leads, acked⟩ := exists_ack joint h.steady.lively time h.going
  have steady := h.steady.leads leads
  obtain ⟨p, joint'⟩ := steady.inv
  obtain ⟨t, leads', sends, left⟩ := exists_left joint' (acked.sender ▸ h.top) acked.mem
    (acked.rcvBase ▸ acked.number) (acked.sender ▸ acked.fresh) (acked.rcvBase.trans whole)
    (fun _ => ⟨0, 0⟩) ⟨0, 0⟩
  obtain ⟨r, joint''⟩ := (steady.leads leads').inv
  refine ⟨t, leads.trans leads', left, ?_, joint''.written_of_left left⟩
  rw [sends.receiver, acked.readyExit]
  exact noticed whole

/-- When no window that reaches the last chunk wraps, the end test is passed with it. -/
theorem Noticed.step (h : sys.Noticed job) (inv : sys.Inv job) (unwrapped : job.Unwrapped) {a : Action}
    (next : step job sys a = some t) : t.Noticed job := by
  obtain ⟨q, joint⟩ := inv
  have laSeq := joint.receiver_laSeq
  replace next := move_of_step next
  cases a with
  | name now recv =>
    simp only [move, Option.ite_none_right_eq_some, Option.map_eq_some_iff] at next
    obtain ⟨-, ack, -, rfl⟩ := next
    exact h
  | poll scan recv now =>
    simp only [move, Option.ite_none_right_eq_some, Option.map_eq_some_iff] at next
    obtain ⟨-, ack, -, rfl⟩ := next
    exact h
  | slot now =>
    simp only [move] at next
    split at next <;> cases next
    exact h
  | accept recv tv =>
    simp only [move, Option.ite_none_right_eq_some, Option.map_eq_some_iff] at next
    obtain ⟨-, frame, -, rfl⟩ := next
    intro whole
    rw [rcvBase_acked (m := 0) tv laSeq (Nat.zero_le _)] at whole
    exact h whole
  | receive recv tv =>
    simp only [move, Option.ite_none_right_eq_some, Option.map_eq_some_iff] at next
    obtain ⟨data, frame, picked, rfl⟩ := next
    intro whole
    cases frame with
    | none =>
      rw [rcvBase_acked (m := 0) tv laSeq (Nat.zero_le _)] at whole
      exact h whole
    | some frame =>
      obtain ⟨m, result, -⟩ := joint.handleFrame data (known_of_pick picked frame rfl)
      have bound := result.bound
      rw [rcvBase_acked tv result.buffering.laSeq bound] at whole
      -- it was not written before, or the receiver had noticed
      have complete := joint.complete
      have unfinished : sys.rcvBase ≤ job.file.lastChunk := by
        by_contra more
        exact (joint.closed.mp data).2 (h (by omega))
      exact (result.exit unfinished whole).mpr (unwrapped.le unfinished (by omega))
  | tail tv =>
    simp only [move] at next
    split at next
    next remaining phase =>
      cases next
      intro whole
      rw [rcvBase_acked (m := 0) tv laSeq (Nat.zero_le _)] at whole
      exact h whole
    next => cases next

theorem Noticed.start (job : Job) (clock : ℕ) : (start clock).Noticed job := fun whole => by cases whole

/-- The laws of a transfer whose last window does not wrap. -/
theorem noticed_leads (unwrapped : job.Unwrapped) (steady : sys.Steady job) (h : sys.Noticed job)
    (leads : Leads (step job) sys t) : t.Steady job ∧ t.Noticed job :=
  leads.invariant (I := fun s => s.Steady job ∧ s.Noticed job)
    (fun _ _ _ laws next => ⟨laws.1.step next, laws.2.step laws.1.inv unwrapped next⟩) ⟨steady, h⟩

/-- Nothing is in the way of the transfer, and there is time for the chunks that are missing:
each of them takes two readings of the clock. -/
structure Underway (job : Job) (sys : System) : Prop where
  ready : sys.Ready job
  noticed : sys.Noticed job
  time : sys.HasTime (2 * (job.file.lastChunk + 1 - sys.rcvBase) + 1)

theorem Underway.exists_nearer (unwrapped : job.Unwrapped) (small : job.file.lastChunk < 2 ^ 30)
    (h : sys.Underway job) (more : sys.rcvBase ≠ job.file.lastChunk + 1) :
    ∃ t, Leads (System.step job) sys t ∧ t.Underway job ∧
      job.file.lastChunk + 1 - t.rcvBase < job.file.lastChunk + 1 - sys.rcvBase := by
  obtain ⟨ready, noticed, time⟩ := h
  obtain ⟨q, joint⟩ := ready.steady.inv
  have complete := joint.complete
  have unfinished : sys.rcvBase ≤ job.file.lastChunk := by omega
  obtain ⟨t, leads, ready', less, clock, -⟩ := ready.exists_round (time.mono (by omega)) (by omega)
    unfinished (unwrapped.le unfinished)
  have time' : t.HasTime (2 * (job.file.lastChunk + 1 - sys.rcvBase) + 1 - 2) :=
    HasTime.later (time.mono (by omega)) clock
  exact ⟨t, leads, ⟨ready', (noticed_leads unwrapped ready.steady noticed leads).2,
    time'.mono (by omega)⟩, by omega⟩

/-- From every reachable state, and even if all that is under way is lost, the transfer can be
completed. -/
theorem recovers_of_unwrapped (unwrapped : job.Unwrapped) (small : job.file.lastChunk < 2 ^ 30)
    (reach : Reaches job sys) (time : sys.HasTime (2 * job.file.lastChunk + 4))
    (ended : sys.receiver.phase = .tail 0 → sys.sender.phase = .left) : sys.lose.Recovers job := by
  obtain ⟨_, as, ⟨clock, rfl⟩, run⟩ := reach
  obtain ⟨steady, noticed⟩ := noticed_leads unwrapped (.start job clock) (.start job clock) ⟨as, run⟩
  by_cases left : sys.sender.phase = .left
  · obtain ⟨q, joint⟩ := steady.inv
    exact ⟨sys.lose, .refl _, left, noticed (joint.left left), joint.written_of_left left⟩
  have open_ : sys.lose.receiver.phase ≠ .tail 0 := fun closed => left (ended closed)
  have time₁ : sys.lose.HasTime 1 := HasTime.mono time (by omega)
  obtain ⟨a, leads, ready, output⟩ := exists_ready steady.lose time₁ left open_
  have noticed' := (noticed_leads unwrapped steady.lose noticed leads).2
  have time₂ : a.HasTime (2 * (job.file.lastChunk + 1 - a.rcvBase) + 1) := by
    rcases output.clock with same | tick
    · exact HasTime.later (c := 0) (HasTime.mono time (by omega)) same
    · exact HasTime.later (HasTime.mono time (by omega)) tick
  -- the number of missing chunks is the measure
  obtain ⟨b, leads', ⟨ready', noticed'', time₃⟩, whole⟩ :=
    exists_leads_done (I := Underway job) (fun s : System => s.rcvBase = job.file.lastChunk + 1)
      (fun s => job.file.lastChunk + 1 - s.rcvBase)
      (fun s h more => h.exists_nearer unwrapped small more) ⟨ready, noticed', time₂⟩
  exact .of_leads (leads.trans leads') (ready'.recovers (time₃.mono (by omega)) whole noticed'')

/-! ### A state without a way out -/

/-- All chunks are created, nothing is under way, and the send pass stops before its first
slot. -/
structure Stuck (job : Job) (sys : System) : Prop where
  inv : sys.Inv job
  frames : sys.frames = []
  data : sys.receiver.phase = .data
  base : sys.sndBase = sys.rcvBase
  unfinished : sys.rcvBase ≤ job.file.lastChunk
  phase : sys.sender.phase = .top ∨ sys.sender.phase = .pass 0
  ended : sys.sender.lastWindow ≠ -1
  wrapped : sys.sender.lastWindow < ((sys.sndBase % seqLen : ℕ) : ℤ)

theorem Stuck.step (h : sys.Stuck job) {a : Action} (next : step job sys a = some t) : t.Stuck job := by
  have inv := h.inv.step next
  obtain ⟨q, joint⟩ := h.inv
  have laSeq := joint.receiver_laSeq
  replace next := move_of_step next
  cases a with
  | name now recv =>
    simp only [move, Option.ite_none_right_eq_some] at next
    rcases h.phase with top | pass
    · cases next.1.symm.trans top
    · cases next.1.symm.trans pass
  | poll scan recv now =>
    simp only [move, Option.ite_none_right_eq_some, Option.map_eq_some_iff] at next
    obtain ⟨-, ack, -, rfl⟩ := next
    obtain ⟨p, joint'⟩ := inv
    -- the window cannot pass the receiver's, and it does not go back
    have base : (sys.sent (sys.sender.poll scan ack now, [])).sndBase = sys.sndBase :=
      le_antisymm (joint'.below.trans h.base.ge) (Nat.le_add_right _ _)
    have same := Sender.poll_lastWindow scan ack now sys.sender
    refine ⟨⟨p, joint'⟩, ?_, h.data, base.trans h.base, h.unfinished, ?_, ?_, ?_⟩
    · change sys.frames ++ [] = []
      rw [h.frames, List.append_nil]
    · cases phase : (sys.sender.poll scan ack now).phase with
      | naming => exact absurd phase (Sender.poll_phase_ne scan ack now)
      | top => exact .inl phase
      | pass i => exact .inr (Sender.poll_phase phase ▸ phase)
      | left =>
        have whole : sys.rcvBase = job.file.lastChunk + 1 := joint'.left phase
        have unfinished := h.unfinished
        omega
    · exact same ▸ h.ended
    · rw [base]
      exact same ▸ h.wrapped
  | slot now =>
    simp only [move] at next
    split at next
    next offset pass =>
      cases next
      obtain rfl : offset = 0 := by
        rcases h.phase with top | first
        · cases pass.symm.trans top
        · exact SenderPhase.pass.inj (pass.symm.trans first)
      have cut : sys.sender.sendSlot job.file now 0 = ({ sys.sender with phase := .top }, []) := by
        unfold Sender.sendSlot
        refine if_pos ⟨h.ended, ?_⟩
        rw [Nat.add_zero, joint.sender.laSeq]
        exact h.wrapped
      rw [cut] at inv ⊢
      have base : (sys.sent (({ sys.sender with phase := .top } : Sender), [])).sndBase = sys.sndBase :=
        sndBase_sent joint.sender.laSeq
      refine ⟨inv, ?_, h.data, base.trans h.base, h.unfinished, .inl rfl, h.ended, base ▸ h.wrapped⟩
      change sys.frames ++ [] = []
      rw [h.frames, List.append_nil]
    next => cases next
  | accept recv tv =>
    simp only [move, Option.ite_none_right_eq_some] at next
    cases next.1.symm.trans h.data
  | receive recv tv =>
    simp only [move, Option.ite_none_right_eq_some, Option.map_eq_some_iff] at next
    obtain ⟨-, frame, picked, rfl⟩ := next
    cases frame with
    | some frame =>
      have member := known_of_pick picked frame rfl
      rw [h.frames] at member
      cases member
    | none =>
      have same : (sys.acked tv (sys.receiver.iteration none tv)).rcvBase = sys.rcvBase :=
        rcvBase_acked (m := 0) tv laSeq (Nat.zero_le _)
      exact ⟨inv, h.frames, if_neg (joint.closed.mp h.data).2, h.base.trans same.symm,
        same ▸ h.unfinished, h.phase, h.ended, h.wrapped⟩
  | tail tv =>
    simp only [move] at next
    split at next
    next remaining tail => cases tail.symm.trans h.data
    next => cases next

/-- There the transfer ends in no continuation. -/
theorem Stuck.not_recovers (h : sys.Stuck job) : ¬ sys.Recovers job := by
  rintro ⟨t, leads, left, -⟩
  have stuck : t.Stuck job := leads.invariant (fun _ _ _ law next => law.step next) h
  rcases stuck.phase with top | pass
  · cases left.symm.trans top
  · cases left.symm.trans pass

/-- The chunks up to `n` are delivered one by one, each at its first sending, while the window
does not reach the last chunk. -/
theorem exists_prefix (small : job.file.lastChunk < 2 ^ 30) {n : ℕ}
    (far : n + 7 ≤ job.file.lastChunk) :
    ∃ t, Leads (System.step job) (start 0) t ∧ t.Ready job ∧ (∀ k, t.receiver.received k = false) ∧
      t.rcvBase = n ∧ t.clock ≤ 2 * n + 1 := by
  induction n with
  | zero =>
    obtain ⟨t, leads, ready, output⟩ := exists_ready (Steady.start job 0)
      (show (0 : ℕ) % 2 ^ 32 + 1 < 2 ^ 32 by decide) (fun left => by cases left) (fun ended => by cases ended)
    refine ⟨t, leads, ready, fun k => ?_, output.rcvBase, ?_⟩
    · rw [output.received]
      rfl
    · rcases output.clock with same | tick
      · exact same.trans_le (Nat.zero_le _)
      · exact tick.le
  | succ n ih =>
    obtain ⟨s, leads, ready, idle, base, clock⟩ := ih (by omega)
    have time : s.HasTime 2 := by
      unfold HasTime
      omega
    have short : ¬ job.file.lastChunk < s.rcvBase + windowLen := by
      dsimp only [windowLen]
      omega
    obtain ⟨t, leads', ready', -, tick, alone⟩ := ready.exists_round time (by omega) (by omega)
      fun near => absurd near short
    obtain ⟨next, idle'⟩ := alone idle
    exact ⟨t, leads.trans leads', ready', idle', by omega, by omega⟩

/-- When some window that reaches the last chunk wraps, losing that window is the end. -/
theorem exists_stuck (wraps : ¬ job.Unwrapped) (small : job.file.lastChunk < 2 ^ 30) :
    ∃ sys, Reaches job sys ∧ sys.HasTime (2 * job.file.lastChunk + 4) ∧ sys.receiver.phase = .data ∧
      sys.lose.Stuck job := by
  obtain ⟨many, few⟩ : seqLen ≤ job.file.lastChunk ∧ job.file.lastChunk % seqLen + 1 < windowLen := by
    unfold Job.Unwrapped at wraps
    omega
  dsimp only [seqLen, windowLen] at many few
  obtain ⟨s, leads, ready, -, base, clock⟩ := exists_prefix small (n := job.file.lastChunk - 7) (by omega)
  have time : s.HasTime 1 := by
    unfold HasTime
    omega
  obtain ⟨t, leads', ready', rcvBase, sndBase, -, tick, q, aligned, filled⟩ :=
    ready.exists_synced time (by omega)
  have unfinished : t.rcvBase ≤ job.file.lastChunk := by omega
  -- the window is full, and its last chunk is the last one of the file
  have all : t.sndBase + q = job.file.lastChunk + 1 := by
    dsimp only [windowLen] at filled
    omega
  have last : t.sender.lastWindow = ((job.file.lastChunk % seqLen : ℕ) : ℤ) := by
    rw [aligned.lastWindow, if_pos all]
  obtain ⟨as, run⟩ := leads.trans leads'
  refine ⟨t, ⟨start 0, as, ⟨0, rfl⟩, run⟩, ?_, ready'.data unfinished, ready'.steady.lose.inv, rfl,
    ready'.data unfinished, sndBase.trans rcvBase.symm, unfinished, .inl ready'.top, ?_, ?_⟩
  · unfold HasTime
    omega
  · change t.sender.lastWindow ≠ -1
    omega
  · change t.sender.lastWindow < ((t.sndBase % seqLen : ℕ) : ℤ)
    rw [last, sndBase, base]
    dsimp only [seqLen]
    omega

/-- Whether a transfer can always be completed, from every state it can get into and with the
loss of everything under way, depends on the length of the file alone: it can if and only if no
window that reaches the last chunk wraps. -/
theorem recovers_iff_unwrapped (job : Job) (small : job.file.lastChunk < 2 ^ 30) :
    (∀ sys, Reaches job sys → sys.HasTime (2 * job.file.lastChunk + 4) →
      (sys.receiver.phase = .tail 0 → sys.sender.phase = .left) → sys.lose.Recovers job) ↔
      job.Unwrapped := by
  constructor
  · intro always
    by_contra wraps
    obtain ⟨sys, reach, time, data, stuck⟩ := exists_stuck wraps small
    exact stuck.not_recovers (always sys reach time fun ended => by cases data.symm.trans ended)
  · exact fun unwrapped sys reach time ended => recovers_of_unwrapped unwrapped small reach time ended

/-- A transfer of three chunks can always be completed, one of 17 cannot. -/
theorem lossyJob_recovers :
    (∀ sys, Reaches lossyJob sys → sys.HasTime (2 * lossyJob.file.lastChunk + 4) →
      (sys.receiver.phase = .tail 0 → sys.sender.phase = .left) → sys.lose.Recovers lossyJob) ∧
    ¬ ∀ sys, Reaches wrapJob sys → sys.HasTime (2 * wrapJob.file.lastChunk + 4) →
      (sys.receiver.phase = .tail 0 → sys.sender.phase = .left) → sys.lose.Recovers wrapJob :=
  ⟨(recovers_iff_unwrapped lossyJob (by decide)).mpr (by decide),
    fun always => absurd ((recovers_iff_unwrapped wrapJob (by decide)).mp always) (by decide)⟩

end System

end ComputerNetworks.Transfer
