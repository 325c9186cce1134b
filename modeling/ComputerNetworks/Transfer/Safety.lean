import ComputerNetworks.Transfer.Invariant

/-!
# What a transfer guarantees

Two results over all runs of the two programs. The file arrives: what the receiver
has written is always the beginning of the file, and the sender does not stop
early, as long as the receiver's clock readings are on time. The receiver, however, does not always notice that it has everything: its
end test compares the number of the last frame, which is reduced modulo `seqLen`,
with a sum that is not, and fails whenever the slots released together with the
last chunk wrap around.
-/

namespace ComputerNetworks.Transfer

open Lib

namespace System

variable {job : Job} {q : ℕ} {sys : System}

/-- The base that unwraps the receiver's `la_seq` counts the chunks it has written. -/
theorem Joint.lastId (h : sys.Joint job q) : sys.receiver.lastId = sys.rcvBase := by
  by_cases naming : sys.receiver.phase = .naming
  · obtain ⟨start, base⟩ := h.naming naming
    rw [start, base]
    rfl
  · exact (h.receiver naming).lastId

theorem Joint.receiver_laSeq (h : sys.Joint job q) :
    sys.receiver.laSeq = sys.rcvBase % seqLen := by
  by_cases naming : sys.receiver.phase = .naming
  · obtain ⟨start, base⟩ := h.naming naming
    rw [start, base]
    rfl
  · exact (h.receiver naming).laSeq

/-- No more chunks are written than the file has. -/
theorem Joint.complete (h : sys.Joint job q) : sys.rcvBase ≤ job.file.lastChunk + 1 :=
  h.above.trans h.sender.created

/-- The output is a beginning of the sequence of chunks. -/
theorem Joint.written (h : sys.Joint job q) :
    sys.receiver.written = (job.file.chunks.take sys.rcvBase).flatten := by
  rw [job.file.take_chunks h.complete]
  by_cases naming : sys.receiver.phase = .naming
  · obtain ⟨start, base⟩ := h.naming naming
    rw [start, base]
    rfl
  · exact (h.receiver naming).written

/-- In every state a transfer can reach, the output is the first `last_id` chunks of
the file, the windows of the two sides are at most `windowLen` apart, and the sender
has left its main loop only if the output is the whole file. -/
theorem transfer_safety (reach : Reaches job sys) :
    (sys.receiver.lastId ≤ job.file.chunks.length ∧
      sys.receiver.written = (job.file.chunks.take sys.receiver.lastId).flatten) ∧
    (sys.sender.laSeq = sys.sndBase % seqLen ∧ sys.receiver.laSeq = sys.rcvBase % seqLen ∧
      sys.sndBase ≤ sys.rcvBase ∧ sys.rcvBase ≤ sys.sndBase + windowLen) ∧
    (sys.sender.phase = .left → sys.receiver.written = job.file.bytes) := by
  obtain ⟨q, joint⟩ := reach.inv
  have above := joint.above.trans (Nat.add_le_add_left joint.sender.window _)
  refine ⟨⟨?_, ?_⟩, ⟨joint.sender.laSeq, joint.receiver_laSeq, joint.below, above⟩, fun left => ?_⟩
  · rw [joint.lastId]
    simpa [RegularFile.chunks] using joint.complete
  · rw [joint.lastId]
    exact joint.written
  · rw [joint.written, joint.left left, List.take_of_length_le (by simp [RegularFile.chunks]),
      RegularFile.chunks_flatten]

/-- A file of two full chunks and a short one, named `x`. -/
def lossyJob : Job := ⟨⟨2 * bufLen + 5, fun i => UInt8.ofNat i⟩, [120]⟩

/-- The start of a run that transfers it: chunk 2 is handled before chunk 0, chunk 1 is lost. -/
def lossyStart : List Action :=
  [.name ⟨0, 0⟩ none, .accept 0 ⟨0, 1⟩, .name ⟨0, 1⟩ (some 0), .poll (fun _ => ⟨0, 1⟩) none ⟨0, 1⟩] ++
    List.replicate 4 (.slot ⟨0, 1⟩) ++ [.receive (some 3) ⟨0, 2⟩, .receive (some 1) ⟨0, 3⟩]

/-- The rest: chunk 0 is acknowledged, the others are timed out, sent again and acknowledged. -/
def lossyRest : List Action :=
  List.replicate 4 (.slot ⟨0, 3⟩) ++ [.poll (fun _ => ⟨0, 1⟩) (some 2) ⟨0, 4⟩] ++
    List.replicate 3 (.slot ⟨0, 4⟩) ++ [.poll (fun _ => ⟨0, 10⟩) none ⟨0, 10⟩] ++
    List.replicate 3 (.slot ⟨0, 10⟩) ++
    [.receive (some 5) ⟨0, 11⟩, .receive (some 4) ⟨0, 12⟩, .tail ⟨0, 13⟩,
      .poll (fun _ => ⟨0, 11⟩) (some 5) ⟨0, 14⟩]

/-- A run with a loss, a reordering and a duplicate. -/
def lossyTransfer : List Action :=
  lossyStart ++ .poll (fun _ => ⟨0, 3⟩) none ⟨0, 3⟩ :: lossyRest

/-- The file is transferred and the sender leaves its main loop. -/
theorem lossyTransfer_safe : ∃ sys, exec (step lossyJob) (start 0) lossyTransfer = some sys ∧
    sys.frames.length = 6 ∧ sys.sender.phase = .left ∧ sys.receiver.written = lossyJob.file.bytes := by
  have evaluated : (exec (step lossyJob) (start 0) lossyTransfer).map
      (fun sys => (sys.frames.length, sys.sender.phase)) = some (6, .left) := by decide +kernel
  obtain ⟨sys, run, last⟩ := Option.map_eq_some_iff.mp evaluated
  rw [Prod.mk.injEq] at last
  exact ⟨sys, run, last.1, last.2,
    (transfer_safety ⟨start 0, lossyTransfer, ⟨0, rfl⟩, run⟩).2.2 last.2⟩

/-! ### The end test -/

/-- The step has written the last chunk, and not before. -/
def WritesLast (job : Job) (s t : System) : Prop :=
  s.receiver.lastId ≤ job.file.lastChunk ∧ t.receiver.lastId = job.file.lastChunk + 1

/-- The receiver's main loop ends with the step that writes the last chunk and at no
other time. -/
structure Completes (job : Job) (s : System) (a : Action) (t : System) : Prop where
  ends : WritesLast job s t → t.receiver.readyExit = 2 ∧ t.receiver.phase = .tail 400
  only : t.receiver.readyExit = 2 → t.receiver.lastId = job.file.lastChunk + 1

/-- A frame that lets the receiver write the rest of the file is handled only when
that rest lies within one revolution of the sequence numbers. -/
def ReleaseUnwrapped (job : Job) (s : System) (a : Action) : Prop :=
  ∀ k tv frame, a = .receive (some k) tv → s.frames[k]? = some frame →
    s.receiver.lastId ≤ job.file.lastChunk → s.receiver.CompletesFile job.file frame →
    s.receiver.laSeq ≤ job.file.lastChunk % seqLen

/-- `ready_exit` is 2 only when the whole file is written. -/
theorem Joint.written_of_exit (h : sys.Joint job q) (exit : sys.receiver.readyExit = 2) :
    sys.receiver.lastId = job.file.lastChunk + 1 := by
  have started : sys.receiver.phase ≠ .naming := by
    intro naming
    rw [(h.naming naming).1] at exit
    cases exit
  have pending := (h.receiver started).pending
  have complete := h.complete
  rw [h.lastId]
  by_contra short
  exact pending (by omega) exit

/-- Only handling a frame writes to the file. -/
theorem lastId_of_move {t : System} {a : Action} (next : move job sys a = some t)
    (other : ∀ k tv, a ≠ .receive (some k) tv) : t.receiver.lastId = sys.receiver.lastId := by
  cases a with
  | name now recv =>
    simp only [move, Option.ite_none_right_eq_some, Option.map_eq_some_iff] at next
    obtain ⟨-, ack, -, rfl⟩ := next
    rfl
  | poll scan recv now =>
    simp only [move, Option.ite_none_right_eq_some, Option.map_eq_some_iff] at next
    obtain ⟨-, ack, -, rfl⟩ := next
    rfl
  | slot now =>
    simp only [move] at next
    split at next <;> cases next
    rfl
  | accept recv tv =>
    simp only [move, Option.ite_none_right_eq_some, Option.map_eq_some_iff] at next
    obtain ⟨-, frame, -, rfl⟩ := next
    rfl
  | receive recv tv =>
    cases recv with
    | none =>
      simp only [move, pick, Option.ite_none_right_eq_some, Option.map_some,
        Option.some.injEq] at next
      obtain ⟨-, rfl⟩ := next
      rfl
    | some k => exact absurd rfl (other k tv)
  | tail tv =>
    simp only [move] at next
    split at next
    next remaining phase =>
      cases next
      rfl
    next => cases next

/-- Handling frame `k` of those sent. -/
theorem receive_of_move {t : System} {k : ℕ} {tv : Timeval}
    (next : move job sys (.receive (some k) tv) = some t) :
    sys.receiver.phase = .data ∧ ∃ frame, sys.frames[k]? = some frame ∧
      t.receiver = (sys.receiver.iteration (some frame) tv).1 := by
  simp only [move, pick, Option.ite_none_right_eq_some, Option.map_eq_some_iff] at next
  obtain ⟨phase, -, ⟨frame, found, rfl⟩, rfl⟩ := next
  exact ⟨phase, frame, found, rfl⟩

/-- A step ends the main loop at the right time exactly when it does not release
slots across the end of the sequence numbers together with the last chunk. -/
theorem Inv.completes_iff {t : System} {a : Action} (h : sys.Inv job)
    (next : System.step job sys a = some t) : Completes job sys a t ↔ ReleaseUnwrapped job sys a := by
  obtain ⟨q', after⟩ := h.step next
  obtain ⟨q, joint⟩ := h
  have only := after.written_of_exit
  by_cases handled : ∃ k tv, a = .receive (some k) tv
  · obtain ⟨k, tv, rfl⟩ := handled
    obtain ⟨phase, frame, found, moved⟩ := receive_of_move (move_of_step next)
    obtain ⟨m, result, completes⟩ := joint.handleFrame phase (List.mem_of_getElem? found)
    -- the step writes `m` chunks
    have lastId : t.receiver.lastId = sys.rcvBase + m := by
      rw [moved]
      exact result.buffering.lastId
    have exits : t.receiver.readyExit = 2 ↔ t.receiver.phase = .tail 400 := by
      rw [moved]
      simp only [Receiver.iteration]
      split_ifs with exit <;> simp [exit]
    have exit : t.receiver.readyExit = (sys.receiver.handleFrame frame).readyExit := by
      rw [moved]
      rfl
    constructor
    · rintro completed k' tv' frame' same found' unfinished fills
      cases same
      cases found.symm.trans found'
      rw [joint.lastId] at unfinished
      have whole := (completes unfinished).mpr fills
      have ended := (completed.ends ⟨joint.lastId ▸ unfinished, lastId.trans whole⟩).1
      rw [joint.receiver_laSeq]
      exact (result.exit unfinished whole).mp (exit ▸ ended)
    · refine fun unwrapped => ⟨fun ⟨unfinished, last⟩ => ?_, only⟩
      have whole : sys.rcvBase + m = job.file.lastChunk + 1 := lastId.symm.trans last
      have inside := unwrapped k tv frame rfl found unfinished
      rw [joint.lastId] at unfinished
      have noWrap := inside ((completes unfinished).mp whole)
      rw [joint.receiver_laSeq] at noWrap
      have ended := exit.trans ((result.exit unfinished whole).mpr noWrap)
      exact ⟨ended, exits.mp ended⟩
  -- no other step writes, so that neither side asks anything of it
  · have idle := lastId_of_move (move_of_step next) fun k tv same => handled ⟨k, tv, same⟩
    refine iff_of_true ⟨fun ⟨unfinished, last⟩ => ?_, only⟩ fun k tv _ same => ?_
    · omega
    · exact absurd ⟨k, tv, same⟩ handled

/-- The receiver's main loop ends when the last chunk is written and at no other time along
every run whose clock readings are on time and in which no release that completes the file wraps
around. While the readings are on time, no other run has this. -/
theorem completion_iff_unwrapped (job : Job) (clock : ℕ) (as : List Action) :
    (EachStep (move job) (fun s a _ => s.onTime a = true ∧ ReleaseUnwrapped job s a) (start clock) as →
      EachStep (move job) (Completes job) (start clock) as) ∧
    (EachStep (move job) (fun s a _ => s.onTime a = true) (start clock) as →
      EachStep (move job) (Completes job) (start clock) as →
        EachStep (move job) (fun s a _ => ReleaseUnwrapped job s a) (start clock) as) := by
  have start := Inv.start job clock
  constructor
  · refine EachStep.imp_of_invariant (fun s a t inv next condition => ?_)
      (fun s a t inv next condition => ?_) start
    · exact inv.step (step_eq_some.mpr ⟨condition.1, next⟩)
    · exact (inv.completes_iff (step_eq_some.mpr ⟨condition.1, next⟩)).mpr condition.2
  · intro onTime completes
    refine (onTime.and completes).imp_of_invariant (fun s a t inv next law => ?_)
      (fun s a t inv next law => ?_) start
    · exact inv.step (step_eq_some.mpr ⟨law.1, next⟩)
    · exact (inv.completes_iff (step_eq_some.mpr ⟨law.1, next⟩)).mp law.2

/-- A file of exactly 16 full chunks, so that the last chunk, the empty one, has number 16. -/
def wrapJob : Job := ⟨⟨16 * bufLen, fun _ => 0⟩, [120]⟩

/-- A run that delivers chunks 0 to 14 in order and chunk 16 before chunk 15. -/
def wrapTransfer : List Action :=
  let t : Timeval := ⟨0, 0⟩
  let slots (n : ℕ) : List Action := List.replicate n (.slot t)
  let frames (first n : ℕ) : List Action :=
    (List.range n).map fun j => .receive (some (first + j)) ⟨0, first + j⟩
  [.name t none, .accept 0 ⟨0, 1⟩, .name t (some 0), .poll (fun _ => t) none t] ++ slots 8 ++
    frames 1 8 ++ [.poll (fun _ => t) (some 8) t] ++ slots 8 ++ frames 9 7 ++
    [.poll (fun _ => t) (some 15) t] ++ slots 2 ++ [.receive (some 17) ⟨0, 17⟩]

set_option maxRecDepth 10000 in
/-- When chunk 15 arrives, both remaining chunks are written, `la_seq` wraps, and the
receiver stays in its main loop with the whole file written. -/
theorem wrapTransfer_never_ends : ¬ EachStep (move wrapJob) (Completes wrapJob) (start 0)
    (wrapTransfer ++ [.receive (some 16) ⟨0, 18⟩]) := by
  intro each
  have before : (exec (move wrapJob) (start 0) wrapTransfer).map (·.receiver.lastId) = some 15 := by
    decide +kernel
  have after : (exec (move wrapJob) (start 0)
      (wrapTransfer ++ [.receive (some 16) ⟨0, 18⟩])).map
        (fun sys => (sys.receiver.lastId, sys.receiver.readyExit)) = some (17, 1) := by
    decide +kernel
  obtain ⟨t, run, last⟩ := Option.map_eq_some_iff.mp after
  obtain ⟨s, prior, first⟩ := Option.map_eq_some_iff.mp before
  have completed := each.last prior (by simpa [exec_append, prior, exec] using run)
  simp only [Prod.mk.injEq] at last
  have ended := (completed.ends ⟨by rw [first]; decide, last.1⟩).1
  omega

end System

end ComputerNetworks.Transfer
