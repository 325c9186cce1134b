import ComputerNetworks.Transfer.Safety
import ComputerNetworks.Transfer.Arrivals

/-!
# A transfer over a noisy network

As long as the network makes no error that the checksum does not show and the clock readings of
`recvfile` are on time, each step of the programs on their sockets is a step of the two-party
system of their frames and acks, or, for a damaged file name, none. Every step of that system is
one of the programs, when the blocks and arrays for the file name are long enough.
-/

namespace ComputerNetworks.Transfer

open Lib

/-! ### What is under way -/

theorem Ack.build_fits (laSeq : ℕ) (tv : Timeval) : (build laSeq tv).Fits := by
  apply stamp_fits
  have below := Int.tmod_lt_of_pos ((laSeq : ℤ) - 1) (show (0 : ℤ) < 16 by omega)
  dsimp only [mod, seqLen, Nat.cast_ofNat]
  split_ifs <;> omega

theorem RegularFile.frame_fits (file : RegularFile) (j : ℕ) : (file.frame j).Fits := by
  refine ⟨Nat.mod_lt _ (by decide), ?_, Nat.mod_lt _ (by omega), file.length_chunk_le j⟩
  dsimp only [RegularFile.frame, RegularFile.frameType]
  split_ifs <;> omega

theorem Job.nameFrame_fits {job : Job} (short : job.fileName.length < nameLen) :
    job.nameFrame.Fits := by
  refine ⟨by dsimp only [nameFrame, seqLen]; omega, by dsimp only [nameFrame]; omega,
    by dsimp only [nameFrame]; omega, ?_⟩
  dsimp only [nameLen] at short
  dsimp only [nameFrame, bufLen]
  rw [List.length_append, List.length_singleton]
  omega

/-- Only the first loop writes to `file_name`. -/
@[simp] theorem Receiver.fileName_handle (r : Receiver) (recv : Option Frame) :
    (r.handle recv).fileName = r.fileName := by
  have writeRun : ∀ count reverseCount (r : Receiver),
      (r.writeRun count reverseCount).fileName = r.fileName := by
    intro count
    induction count with
    | zero => exact fun _ _ => rfl
    | succ count ih => exact fun reverseCount r => ih (reverseCount + 1) (r.writeHead reverseCount)
  have announced : ∀ frame, (r.announce frame).fileName = r.fileName := by
    intro frame
    unfold announce
    split_ifs <;> rfl
  cases recv with
  | none => rfl
  | some frame =>
    dsimp only [handle, handleFrame]
    split_ifs
    · exact (writeRun _ 0 _).trans (announced frame)
    · exact announced frame
    · rfl

namespace System

variable {job : Job} {sys : System}

/-- While the receiver waits for the file name, only the file name is under way, and that is
the name it gets; every ack fits its datagram. -/
structure Framed (job : Job) (sys : System) : Prop where
  opening : sys.receiver.phase = .naming → ∀ frame ∈ sys.frames, frame = job.nameFrame
  silent : sys.receiver.phase = .naming → sys.acks = [] ∧ sys.sender.phase = .naming
  named : sys.receiver.phase ≠ .naming → sys.receiver.fileName = job.fileName ++ [0]
  stamped : ∀ ack ∈ sys.acks, ack.Fits

theorem Framed.start (job : Job) (clock : ℕ) : (start clock).Framed job := by
  constructor <;> simp [System.start, Sender.start, Receiver.start]

/-- The receiver has left the first loop and acknowledges something. -/
theorem Framed.acked (h : sys.Framed job) {tv : Timeval} {result : Receiver × Ack}
    (started : result.1.phase ≠ .naming) (named : result.1.fileName = job.fileName ++ [0])
    (fits : result.2.Fits) : (sys.acked tv result).Framed job := by
  refine ⟨fun naming => absurd naming started, fun naming => absurd naming started,
    fun _ => named, ?_⟩
  intro ack member
  rcases List.mem_append.mp member with old | new
  · exact h.stamped ack old
  · rw [List.mem_singleton.mp new]
    exact fits

theorem iteration_started (r : Receiver) (recv : Option Frame) (tv : Timeval) :
    (r.iteration recv tv).1.phase ≠ .naming := by
  dsimp only [Receiver.iteration]
  split_ifs <;> simp

theorem Framed.step (h : sys.Framed job) {a : Action} {t : System}
    (next : System.step job sys a = some t) : t.Framed job := by
  replace next := move_of_step next
  cases a with
  | name now recv =>
    simp only [move, Option.ite_none_right_eq_some, Option.map_eq_some_iff] at next
    obtain ⟨naming, ack, picked, rfl⟩ := next
    obtain ⟨phase, _, _, _, _, out, changed, phases, -, only⟩ :=
      nameIteration_spec sys.sender job now ack
    refine ⟨fun waiting frame member => ?_, fun waiting => ?_, h.named, h.stamped⟩
    · rcases List.mem_append.mp member with old | new
      · exact h.opening waiting frame old
      · rw [changed] at new
        exact only frame new
    · -- without an ack the sender goes on announcing the name
      have none_sent := (h.silent waiting).1
      refine ⟨none_sent, ?_⟩
      cases ack with
      | none =>
        dsimp only [System.sent, Sender.nameIteration]
        split_ifs <;> exact naming
      | some ack =>
        have sent := mem_of_pick picked
        rw [none_sent] at sent
        cases sent
  | poll scan recv now =>
    simp only [move, Option.ite_none_right_eq_some, Option.map_eq_some_iff] at next
    obtain ⟨top, ack, -, rfl⟩ := next
    -- the main loop of `sendfile` begins when `recvfile` has answered
    have started : sys.receiver.phase ≠ .naming := fun waiting => by
      rw [(h.silent waiting).2] at top
      cases top
    exact ⟨fun waiting => absurd waiting started, fun waiting => absurd waiting started, h.named,
      h.stamped⟩
  | slot now =>
    simp only [move] at next
    split at next
    next offset pass =>
      cases next
      have started : sys.receiver.phase ≠ .naming := fun waiting => by
        rw [(h.silent waiting).2] at pass
        cases pass
      exact ⟨fun waiting => absurd waiting started, fun waiting => absurd waiting started,
        h.named, h.stamped⟩
    next => cases next
  | accept recv tv =>
    simp only [move, Option.ite_none_right_eq_some, Option.map_eq_some_iff] at next
    obtain ⟨naming, frame, found, rfl⟩ := next
    -- whatever is picked is the file name
    have named := h.opening naming frame (List.mem_of_getElem? found)
    refine h.acked (by simp [Receiver.nameIteration]) ?_ (Ack.stamp_fits (by decide) tv)
    rw [named]
    rfl
  | receive recv tv =>
    simp only [move, Option.ite_none_right_eq_some, Option.map_eq_some_iff] at next
    obtain ⟨phase, frame, -, rfl⟩ := next
    refine h.acked (iteration_started _ _ _) ?_ (Ack.build_fits _ tv)
    exact (Receiver.fileName_handle _ frame).trans (h.named (by rw [phase]; decide))
  | tail tv =>
    simp only [move] at next
    split at next
    next remaining phase =>
      cases next
      exact h.acked (by simp [Receiver.tailIteration]) (h.named (by rw [phase]; simp))
        (Ack.build_fits _ tv)
    next => cases next

end System

/-! ### The simulation -/

namespace Sockets

variable {job : Job} {slack : ℕ} {w : Sockets} {sys : System}

/-- The variables of both programs are those of the two-party system, and what is under way are
the datagrams of its frames and acks. -/
structure Shows (w : Sockets) (sys : System) : Prop where
  sender : w.sender.send = sys.sender
  receiver : w.receiver.recv = sys.receiver
  frames : w.frames = (sys.frames.map Frame.body).map sealed
  acks : w.acks = (sys.acks.map Ack.body).map sealed
  clock : w.clock = sys.clock

/-- The state shown is one that the laws of a transfer allow, and the programs have gone outside
their memory only on a block or an array that is too short for the file name. -/
structure Carries (job : Job) (slack : ℕ) (w : Sockets) (sys : System) : Prop
    extends w.Shows sys where
  inv : sys.Inv job
  framed : sys.Framed job
  sending : w.sender.fault = decide (slack < 3)
  receiving : w.receiver.fault = true ↔ sys.receiver.phase ≠ .naming ∧ job.outputFile = none
  output : ∀ path, w.output = some path → job.outputFile = some path

theorem Carries.start (job : Job) (slack clock : ℕ) (memory memory' : ℕ → UInt8) :
    (start job slack clock memory memory').Carries job slack (.start clock) where
  sender := rfl
  receiver := rfl
  frames := rfl
  acks := rfl
  clock := rfl
  inv := System.Inv.start job clock
  framed := System.Framed.start job clock
  sending := by
    change decide (_ < _) = decide (_ < _)
    rw [decide_eq_decide, SendSession.packetRoom]
    omega
  receiving := by simp [Sockets.start, Session.start, System.start, Receiver.start]
  output := by simp [Sockets.start]

/-- Every frame under way carries the file name or a chunk. -/
theorem fits_of_inv (named : job.fileName.length < nameLen) (inv : sys.Inv job) :
    ∀ frame ∈ sys.frames, frame.Fits := by
  obtain ⟨q, joint⟩ := inv
  intro frame member
  rcases joint.frames frame member with rfl | ⟨j, -, rfl⟩
  · exact Job.nameFrame_fits named
  · exact job.file.frame_fits j

theorem Carries.ticks (h : w.Carries job slack sys) (tv : Timeval) : w.ticks tv = sys.ticks tv := by
  rw [Sockets.ticks, System.ticks, h.clock]

/-- While `recvfile` has its output open, its arrays were long enough. -/
theorem Carries.intact (h : w.Carries job slack sys) (opened : w.output.isSome = true) :
    job.outputFile ≠ none ∧ w.receiver.fault = false := by
  obtain ⟨path, written⟩ := Option.isSome_iff_exists.mp opened
  have exists_path : job.outputFile ≠ none := by
    rw [h.output path written]
    exact Option.some_ne_none path
  exact ⟨exists_path, Bool.eq_false_iff.mpr fun fault => exists_path (h.receiving.mp fault).2⟩

/-- A poll of `sendfile` returns an ack that is under way, or nothing, or damaged bytes. -/
theorem Carries.ack_arrives (h : w.Carries job slack sys) {recv : Option Delivery}
    {datagram : Option (List UInt8)} (picked : Delivery.pick w.acks recv = some datagram)
    (detectable : ∀ delivery, recv = some delivery → delivery.Detectable) :
    ∃ k, Arrives ((sys.acks.map Ack.body).map sealed) k datagram := by
  rw [h.acks] at picked
  exact Delivery.arrives (fun c => Ack.short_of_mem) picked detectable

/-- A poll of `recvfile` returns a frame that is under way, or nothing, or damaged bytes. -/
theorem Carries.frame_arrives (h : w.Carries job slack sys)
    (named : job.fileName.length < nameLen) {recv : Option Delivery}
    {datagram : Option (List UInt8)} (picked : Delivery.pick w.frames recv = some datagram)
    (detectable : ∀ delivery, recv = some delivery → delivery.Detectable) :
    ∃ k, Arrives ((sys.frames.map Frame.body).map sealed) k datagram := by
  rw [h.frames] at picked
  refine Delivery.arrives (fun c member => ?_) picked detectable
  obtain ⟨frame, sent, rfl⟩ := List.mem_map.mp member
  have payload := (fits_of_inv named h.inv frame sent).payload
  dsimp only [bufLen] at payload
  rw [Frame.length_body]
  omega

/-- Both systems make a move of the sender. -/
theorem Carries.sent (h : w.Carries job slack sys) (named : job.fileName.length < nameLen)
    {a : Action} {moved : Sender × List Frame}
    (next : System.step job sys a = some (sys.sent moved)) (buf memory : ℕ → UInt8) :
    (w.sent (⟨buf, moved.1, w.sender.fault⟩,
      moved.2.map fun frame => frame.encode memory)).Carries job slack (sys.sent moved) := by
  have inv := h.inv.step next
  -- what is sent is under way afterwards, so that the invariant bounds its length
  have wire : (moved.2.map fun frame => frame.encode memory) =
      (moved.2.map Frame.body).map sealed := by
    rw [List.map_map]
    apply List.map_congr_left
    intro frame member
    exact (fits_of_inv named inv frame (List.mem_append_right _ member)).encode_eq memory
  exact {
    sender := rfl
    receiver := h.receiver
    frames := by simp only [Sockets.sent, System.sent, h.frames, wire, List.map_append]
    acks := h.acks
    clock := h.clock
    inv := inv
    framed := h.framed.step next
    sending := h.sending
    receiving := h.receiving
    output := h.output }

/-- Both systems make a move of the receiver, which may have failed behind the file name. -/
theorem Carries.acked (h : w.Carries job slack sys) {a : Action} {tv : Timeval}
    {moved : Receiver × Ack} (next : System.step job sys a = some (sys.acked tv moved))
    (buf memory : ℕ → UInt8) {fault : Bool} {output : Option (List UInt8)}
    (receiving : fault = true ↔ moved.1.phase ≠ .naming ∧ job.outputFile = none)
    (written : ∀ path, output = some path → job.outputFile = some path) :
    ({ w.acked tv memory ⟨buf, moved.1, fault⟩ moved.2 with output := output } :
      Sockets).Carries job slack (sys.acked tv moved) where
  sender := h.sender
  receiver := rfl
  frames := h.frames
  acks := by
    simp only [Sockets.acked, System.acked, h.acks, Ack.encode_eq, List.map_append, List.map_cons,
      List.map_nil]
  clock := rfl
  inv := h.inv.step next
  framed := h.framed.step next
  sending := h.sending
  receiving := receiving
  output := written

/-! ### Moves of the sender on its socket -/

theorem Carries.name (h : w.Carries job slack sys) (named : job.fileName.length < nameLen)
    (naming : w.sender.send.phase = .naming) {k : Option ℕ} {datagram : Option (List UInt8)}
    (arrives : Arrives ((sys.acks.map Ack.body).map sealed) k datagram) (now : Timeval)
    (memory : ℕ → UInt8) :
    ∃ t, System.step job sys (.name now k) = some t ∧
      (w.sent (w.sender.name job now memory datagram)).Carries job slack t := by
  obtain ⟨buf, ack, received, same⟩ :=
    SendSession.receive_of_arrives (s := w.sender) h.framed.stamped arrives
  have move : System.step job sys (.name now k) =
      some (sys.sent (sys.sender.nameIteration job now ack)) := by
    rw [System.step_name, System.move, if_pos (h.sender ▸ naming), same, Option.map_some]
  have carried := h.sent named move buf memory
  refine ⟨_, move, ?_⟩
  simpa only [SendSession.name, received, h.sender] using carried

theorem Carries.poll (h : w.Carries job slack sys) (named : job.fileName.length < nameLen)
    (top : w.sender.send.phase = .top) {k : Option ℕ} {datagram : Option (List UInt8)}
    (arrives : Arrives ((sys.acks.map Ack.body).map sealed) k datagram) (scan : ℕ → Timeval)
    (now : Timeval) :
    ∃ t, System.step job sys (.poll scan k now) = some t ∧
      (w.sent (w.sender.poll scan datagram now, [])).Carries job slack t := by
  obtain ⟨buf, ack, received, same⟩ :=
    SendSession.receive_of_arrives (s := w.sender) h.framed.stamped arrives
  have move : System.step job sys (.poll scan k now) =
      some (sys.sent (sys.sender.poll scan ack now, [])) := by
    rw [System.step_poll, System.move, if_pos (h.sender ▸ top), same, Option.map_some]
  have carried := h.sent named move buf fun _ => 0
  refine ⟨_, move, ?_⟩
  simpa only [SendSession.poll, received, h.sender, List.map_nil] using carried

theorem Carries.slot (h : w.Carries job slack sys) (named : job.fileName.length < nameLen)
    {offset : ℕ} (pass : w.sender.send.phase = .pass offset) (now : Timeval)
    (memory : ℕ → UInt8) :
    ∃ t, System.step job sys (.slot now) = some t ∧
      (w.sent (w.sender.slot job.file now memory offset)).Carries job slack t := by
  have move : System.step job sys (.slot now) =
      some (sys.sent (sys.sender.sendSlot job.file now offset)) := by
    rw [h.sender] at pass
    simp only [System.step_slot, System.move, pass]
  have carried := h.sent named move w.sender.buf memory
  refine ⟨_, move, ?_⟩
  simpa only [SendSession.slot, h.sender] using carried

/-! ### Moves of the receiver on its socket -/

/-- Behind the file name `recvfile` has opened its output, or left, or gone outside its arrays. -/
theorem Carries.create (h : w.Carries job slack sys) {a : Action} {tv : Timeval} {frame : Frame}
    (next : System.step job sys a = some (sys.acked tv (sys.receiver.nameIteration frame tv)))
    (named : frame.payload = job.fileName ++ [0]) (buf memory : ℕ → UInt8) (opens : Bool) :
    ((w.acked tv memory ⟨buf, (sys.receiver.nameIteration frame tv).1, false⟩
      (.stamp (seqLen - 1) tv)).create opens).Carries job slack
        (sys.acked tv (sys.receiver.nameIteration frame tv)) := by
  have started : (sys.receiver.nameIteration frame tv).1.phase ≠ .naming := by
    simp [Receiver.nameIteration]
  have path : outputFile (sys.receiver.nameIteration frame tv).1.fileName = job.outputFile := by
    rw [Job.outputFile, ← named]
    rfl
  simp only [Sockets.create, Sockets.acked, path]
  cases made : job.outputFile with
  | none =>
    exact h.acked next buf memory (iff_of_true rfl ⟨started, made⟩) h.output
  | some path =>
    -- nothing is open when `fopen` returns NULL
    refine h.acked next buf memory (iff_of_false Bool.false_ne_true fun bad => ?_) fun path' eq => ?_
    · cases made.symm.trans bad.2
    · split_ifs at eq
      rw [← Option.some.inj eq]
      exact made

/-- A datagram that arrives while the file name is awaited names the file or is dropped. -/
theorem Carries.accept (h : w.Carries job slack sys) (named : job.fileName.length < nameLen)
    (naming : w.receiver.recv.phase = .naming) {k : Option ℕ} {bytes : List UInt8}
    (arrives : Arrives ((sys.frames.map Frame.body).map sealed) k (some bytes))
    (beyond : ℕ → Bool) {tv : Timeval} (ticks : w.ticks tv = true) (memory : ℕ → UInt8)
    (opens : Bool) :
    (∃ s t, ∃ j : ℕ, k = some j ∧ w.receiver.step ⟨some bytes, beyond, tv⟩ = some s ∧
        s.recv.phase = .data ∧ System.step job sys (.accept j tv) = some t ∧
        ((w.acked tv memory s (.stamp (seqLen - 1) tv)).create opens).Carries job slack t) ∨
      ∃ s, k = none ∧ w.receiver.step ⟨some bytes, beyond, tv⟩ = some s ∧
        s.recv.phase ≠ .data ∧ ({ w with receiver := s } : Sockets).Carries job slack sys := by
  have waiting : sys.receiver.phase = .naming := h.receiver ▸ naming
  have running : w.receiver.fault = false := by
    rw [Bool.eq_false_iff]
    exact fun fault => (h.receiving.mp fault).1 waiting
  -- only the file name is under way
  have short : ∀ frame ∈ sys.frames, frame.payload.length ≤ nameLen := by
    intro frame member
    rw [h.framed.opening waiting frame member, Job.nameFrame, List.length_append,
      List.length_singleton]
    omega
  rcases Session.accept_of_arrives beyond tv (fits_of_inv named h.inv) short running naming
    arrives with ⟨buf, j, frame, rfl, found, handled⟩ | ⟨buf, rfl, handled⟩
  · -- the name is taken, whatever becomes of the output
    have move : System.step job sys (.accept j tv) =
        some (sys.acked tv (sys.receiver.nameIteration frame tv)) := by
      refine System.step_eq_some.mpr ⟨(h.ticks tv).symm.trans ticks, ?_⟩
      rw [System.move, if_pos waiting, found, Option.map_some]
    have payload : frame.payload = job.fileName ++ [0] := by
      rw [h.framed.opening waiting frame (List.mem_of_getElem? found)]
      rfl
    refine .inl ⟨_, _, j, rfl, handled, rfl, move, ?_⟩
    rw [h.receiver]
    exact h.create move payload buf memory opens
  · -- `recvfile` does not answer what fails the test
    refine .inr ⟨_, rfl, handled, by simp [naming], ?_⟩
    exact { h with receiving := by rw [← h.receiving, running] }

theorem Carries.receive (h : w.Carries job slack sys) (named : job.fileName.length < nameLen)
    (phase : w.receiver.recv.phase = .data) (opened : w.output.isSome = true) {k : Option ℕ}
    {datagram : Option (List UInt8)}
    (arrives : Arrives ((sys.frames.map Frame.body).map sealed) k datagram) (beyond : ℕ → Bool)
    {tv : Timeval} (ticks : w.ticks tv = true) (memory : ℕ → UInt8) :
    ∃ s t, w.receiver.step ⟨datagram, beyond, tv⟩ = some s ∧
      System.step job sys (.receive k tv) = some t ∧
      (w.acked tv memory s (.build s.recv.laSeq tv)).Carries job slack t := by
  obtain ⟨path, running⟩ := h.intact opened
  obtain ⟨buf, frame, same, handled⟩ :=
    Session.step_of_arrives beyond tv (fits_of_inv named h.inv) running phase arrives
  have move : System.step job sys (.receive k tv) =
      some (sys.acked tv (sys.receiver.iteration frame tv)) := by
    refine System.step_eq_some.mpr ⟨(h.ticks tv).symm.trans ticks, ?_⟩
    rw [System.move, if_pos (h.receiver ▸ phase), same, Option.map_some]
  refine ⟨_, _, handled, move, ?_⟩
  rw [h.receiver]
  exact h.acked move buf memory (iff_of_false Bool.false_ne_true fun bad => path bad.2) h.output

theorem Carries.tail (h : w.Carries job slack sys) {remaining : ℕ}
    (phase : w.receiver.recv.phase = .tail (remaining + 1)) (opened : w.output.isSome = true)
    {tv : Timeval} (ticks : w.ticks tv = true) (memory : ℕ → UInt8) :
    ∃ t, System.step job sys (.tail tv) = some t ∧
      (w.acked tv memory
        ⟨w.receiver.buf, (w.receiver.recv.tailIteration remaining tv).1, w.receiver.fault⟩
        (w.receiver.recv.tailIteration remaining tv).2).Carries job slack t := by
  obtain ⟨path, running⟩ := h.intact opened
  have move : System.step job sys (.tail tv) =
      some (sys.acked tv (sys.receiver.tailIteration remaining tv)) := by
    refine System.step_eq_some.mpr ⟨(h.ticks tv).symm.trans ticks, ?_⟩
    rw [h.receiver] at phase
    simp only [System.move, phase]
  refine ⟨_, move, ?_⟩
  rw [h.receiver, running]
  exact h.acked move w.receiver.buf memory
    (iff_of_false Bool.false_ne_true fun bad => path bad.2) h.output

/-! ### Every byte-level step is shown -/

/-- Every tame move is a step of the two-party system, or none of its steps. -/
theorem simulates (named : job.fileName.length < nameLen) :
    Simulates (move job) (System.step job) Tame (Carries job slack) := by
  intro w a t sys h next tame
  have detected := tame.detected
  have ticks := tame.onTime
  cases a with
  | name now memory recv =>
    simp only [move, Option.ite_none_right_eq_some, Option.map_eq_some_iff] at next
    obtain ⟨⟨-, naming⟩, datagram, picked, rfl⟩ := next
    obtain ⟨k, arrives⟩ := h.ack_arrives picked detected
    obtain ⟨t, move, carried⟩ := h.name named naming arrives now memory
    exact ⟨[_], t, exec_singleton move, carried⟩
  | poll scan recv now =>
    simp only [move, Option.ite_none_right_eq_some, Option.map_eq_some_iff] at next
    obtain ⟨⟨-, top⟩, datagram, picked, rfl⟩ := next
    obtain ⟨k, arrives⟩ := h.ack_arrives picked detected
    obtain ⟨t, move, carried⟩ := h.poll named top arrives scan now
    exact ⟨[_], t, exec_singleton move, carried⟩
  | slot now memory =>
    simp only [move] at next
    split at next
    next offset pass =>
      simp only [Option.ite_none_right_eq_some, Option.some.injEq] at next
      obtain ⟨-, rfl⟩ := next
      obtain ⟨t, move, carried⟩ := h.slot named pass now memory
      exact ⟨[_], t, exec_singleton move, carried⟩
    next => cases next
  | accept recv beyond tv memory opens =>
    simp only [move, Option.ite_none_right_eq_some, Option.bind_eq_some_iff,
      Option.map_eq_some_iff] at next
    obtain ⟨naming, datagram, picked, s, stepped, rfl⟩ := next
    obtain ⟨k, arrives⟩ := h.frame_arrives named picked detected
    cases datagram with
    | none =>
      -- `recvfrom` waits for a datagram
      simp [Delivery.pick, Option.bind_eq_some_iff] at picked
    | some bytes =>
      rcases h.accept named naming arrives beyond ticks memory opens with
        ⟨s', t, j, -, handled, data, move, carried⟩ | ⟨s', -, handled, dropped, carried⟩
      · cases stepped.symm.trans handled
        rw [if_pos data]
        exact ⟨[_], t, exec_singleton move, carried⟩
      · cases stepped.symm.trans handled
        rw [if_neg dropped]
        exact ⟨[], sys, rfl, carried⟩
  | receive recv beyond tv memory =>
    simp only [move, Option.ite_none_right_eq_some, Option.bind_eq_some_iff,
      Option.map_eq_some_iff] at next
    obtain ⟨⟨phase, opened⟩, datagram, picked, s, stepped, rfl⟩ := next
    obtain ⟨k, arrives⟩ := h.frame_arrives named picked detected
    obtain ⟨s', t, handled, move, carried⟩ :=
      h.receive named phase opened arrives beyond ticks memory
    cases stepped.symm.trans handled
    exact ⟨[_], t, exec_singleton move, carried⟩
  | tail tv memory =>
    simp only [move] at next
    split at next
    next remaining phase =>
      simp only [Option.ite_none_right_eq_some, Option.some.injEq] at next
      obtain ⟨⟨-, opened⟩, rfl⟩ := next
      obtain ⟨t, move, carried⟩ := h.tail phase opened ticks memory
      exact ⟨[_], t, exec_singleton move, carried⟩
    next => cases next

/-! ### Every abstract step has a byte-level one -/

@[simp] theorem create_recv (opens : Bool) : (w.create opens).receiver.recv = w.receiver.recv := by
  unfold create
  split <;> rfl

/-- When `fopen` succeeds, it has a path, and the output is open. -/
theorem create_isSome (path : outputFile w.receiver.recv.fileName ≠ none) :
    (w.create true).output.isSome = true := by
  unfold create
  split
  next none_path => exact absurd none_path path
  next => rfl

/-- Also, `recvfile` has its output open once it has the file name. -/
structure Opened (job : Job) (slack : ℕ) (w : Sockets) (sys : System) : Prop
    extends w.Carries job slack sys where
  opened : sys.receiver.phase ≠ .naming → w.output.isSome = true

theorem Opened.start (job : Job) (slack clock : ℕ) (memory memory' : ℕ → UInt8) :
    (start job slack clock memory memory').Opened job slack (.start clock) where
  toCarries := Carries.start job slack clock memory memory'
  opened started := absurd rfl started

/-- A tame move that is shown as a move to `t`. -/
def Realizes (job : Job) (slack : ℕ) (w : Sockets) (t : System) : Prop :=
  ∃ b v, move job w b = some v ∧ Tame w b v ∧ v.Opened job slack t

theorem Opened.running (h : w.Opened job slack sys) (room : 3 ≤ slack) :
    w.sender.fault = false := by
  rw [h.sending, decide_eq_false_iff_not]
  omega

theorem Opened.sent (h : w.Opened job slack sys) {result : SendSession × List (List UInt8)}
    {t : System} (carried : (w.sent result).Carries job slack t) :
    (w.sent result).Opened job slack t where
  toCarries := carried
  opened started := h.opened (by rwa [← h.receiver, show w.receiver.recv = _ from carried.receiver])

theorem Opened.acked (h : w.Opened job slack sys) (started : sys.receiver.phase ≠ .naming)
    {tv : Timeval} {memory : ℕ → UInt8} {s : Session} {ack : Ack} {t : System}
    (carried : (w.acked tv memory s ack).Carries job slack t) :
    (w.acked tv memory s ack).Opened job slack t where
  toCarries := carried
  opened _ := h.opened started

theorem Opened.realize_name (h : w.Opened job slack sys) (named : job.fileName.length < nameLen)
    (room : 3 ≤ slack) {now : Timeval} {k : Option ℕ} {t : System}
    (next : System.step job sys (.name now k) = some t) : w.Realizes job slack t := by
  obtain ⟨naming, ack, picked⟩ : sys.sender.phase = .naming ∧ ∃ ack, pick sys.acks k = some ack := by
    simp only [System.step_name, System.move, Option.ite_none_right_eq_some,
      Option.map_eq_some_iff] at next
    exact ⟨next.1, next.2.imp fun _ found => found.1⟩
  have same : ((sys.acks.map Ack.body).map sealed).length = sys.acks.length := by simp
  obtain ⟨recv, datagram, polled, arrives, detectable⟩ := Delivery.intact_pick same picked
  obtain ⟨t', move, carried⟩ := h.name named (h.sender ▸ naming) arrives now fun _ => 0
  cases next.symm.trans move
  refine ⟨.name now (fun _ => 0) recv, _, ?_, ⟨rfl, detectable⟩, h.sent carried⟩
  rw [Sockets.move, if_pos ⟨h.running room, h.sender ▸ naming⟩, h.acks, polled, Option.map_some]

theorem Opened.realize_poll (h : w.Opened job slack sys) (named : job.fileName.length < nameLen)
    (room : 3 ≤ slack) {scan : ℕ → Timeval} {k : Option ℕ} {now : Timeval} {t : System}
    (next : System.step job sys (.poll scan k now) = some t) : w.Realizes job slack t := by
  obtain ⟨top, ack, picked⟩ : sys.sender.phase = .top ∧ ∃ ack, pick sys.acks k = some ack := by
    simp only [System.step_poll, System.move, Option.ite_none_right_eq_some,
      Option.map_eq_some_iff] at next
    exact ⟨next.1, next.2.imp fun _ found => found.1⟩
  have same : ((sys.acks.map Ack.body).map sealed).length = sys.acks.length := by simp
  obtain ⟨recv, datagram, polled, arrives, detectable⟩ := Delivery.intact_pick same picked
  obtain ⟨t', move, carried⟩ := h.poll named (h.sender ▸ top) arrives scan now
  cases next.symm.trans move
  refine ⟨.poll scan recv now, _, ?_, ⟨rfl, detectable⟩, h.sent carried⟩
  rw [Sockets.move, if_pos ⟨h.running room, h.sender ▸ top⟩, h.acks, polled, Option.map_some]

theorem Opened.realize_slot (h : w.Opened job slack sys) (named : job.fileName.length < nameLen)
    (room : 3 ≤ slack) {now : Timeval} {t : System}
    (next : System.step job sys (.slot now) = some t) : w.Realizes job slack t := by
  obtain ⟨offset, pass⟩ : ∃ offset, sys.sender.phase = .pass offset := by
    simp only [System.step_slot, System.move] at next
    split at next
    next offset pass => exact ⟨offset, pass⟩
    next => cases next
  obtain ⟨t', move, carried⟩ := h.slot named (h.sender ▸ pass) now fun _ => 0
  cases next.symm.trans move
  refine ⟨.slot now fun _ => 0, _, ?_, ⟨rfl, by simp [SocketAction.delivery]⟩, h.sent carried⟩
  rw [← h.sender] at pass
  simp only [Sockets.move, pass, if_pos (h.running room)]

theorem Opened.realize_accept (h : w.Opened job slack sys) (named : job.fileName.length < nameLen)
    (path : job.outputFile ≠ none) {j : ℕ} {tv : Timeval} {t : System}
    (next : System.step job sys (.accept j tv) = some t) : w.Realizes job slack t := by
  obtain ⟨ticks, moved⟩ := System.step_eq_some.mp next
  simp only [System.move, Option.ite_none_right_eq_some, Option.map_eq_some_iff] at moved
  obtain ⟨naming, frame, found, -⟩ := moved
  have same : ((sys.frames.map Frame.body).map sealed).length = sys.frames.length := by simp
  have inside := same ▸ (List.getElem?_eq_some_iff.mp found).1
  obtain ⟨delivery, bytes, polled, arrives, detectable⟩ := Delivery.intact inside
  have onTime : w.ticks tv = true := (h.ticks tv).trans ticks
  rcases h.accept named (h.receiver ▸ naming) arrives (fun _ => false) onTime (fun _ => 0) true with
    ⟨s, t', j', picked, handled, data, move, carried⟩ | ⟨s, dropped, -⟩
  · cases picked
    cases next.symm.trans move
    refine ⟨.accept delivery (fun _ => false) tv (fun _ => 0) true, _, ?_, ⟨onTime, ?_⟩, carried, ?_⟩
    · rw [Sockets.move, if_pos (h.receiver ▸ naming), h.frames, polled, Option.bind_some, handled,
        Option.map_some, if_pos data]
    · intro other eq
      cases eq
      exact detectable
    · -- the name has a path, and `fopen` succeeds
      intro started
      have name : s.recv.fileName = job.fileName ++ [0] := by
        rw [← carried.framed.named started, ← carried.receiver, create_recv]
        rfl
      exact create_isSome (name ▸ path)
  · cases dropped

theorem Opened.realize_receive (h : w.Opened job slack sys)
    (named : job.fileName.length < nameLen) {k : Option ℕ} {tv : Timeval} {t : System}
    (next : System.step job sys (.receive k tv) = some t) : w.Realizes job slack t := by
  obtain ⟨ticks, moved⟩ := System.step_eq_some.mp next
  simp only [System.move, Option.ite_none_right_eq_some, Option.map_eq_some_iff] at moved
  obtain ⟨phase, frame, picked, -⟩ := moved
  have same : ((sys.frames.map Frame.body).map sealed).length = sys.frames.length := by simp
  obtain ⟨recv, datagram, polled, arrives, detectable⟩ := Delivery.intact_pick same picked
  have started : sys.receiver.phase ≠ .naming := by simp [phase]
  have onTime : w.ticks tv = true := (h.ticks tv).trans ticks
  obtain ⟨s, t', handled, move, carried⟩ := h.receive named (h.receiver ▸ phase)
    (h.opened started) arrives (fun _ => false) onTime fun _ => 0
  cases next.symm.trans move
  refine ⟨.receive recv (fun _ => false) tv fun _ => 0, _, ?_, ⟨onTime, detectable⟩,
    h.acked started carried⟩
  rw [Sockets.move, if_pos ⟨h.receiver ▸ phase, h.opened started⟩, h.frames, polled,
    Option.bind_some, handled, Option.map_some]

theorem Opened.realize_tail (h : w.Opened job slack sys) {tv : Timeval} {t : System}
    (next : System.step job sys (.tail tv) = some t) : w.Realizes job slack t := by
  obtain ⟨ticks, moved⟩ := System.step_eq_some.mp next
  obtain ⟨remaining, phase⟩ : ∃ remaining, sys.receiver.phase = .tail (remaining + 1) := by
    simp only [System.move] at moved
    split at moved
    next remaining phase => exact ⟨remaining, phase⟩
    next => cases moved
  have started : sys.receiver.phase ≠ .naming := by simp [phase]
  have onTime : w.ticks tv = true := (h.ticks tv).trans ticks
  have opened := h.opened started
  have running := (h.intact opened).2
  obtain ⟨t', move, carried⟩ := h.tail (h.receiver ▸ phase) opened onTime fun _ => 0
  cases next.symm.trans move
  refine ⟨.tail tv fun _ => 0, _, ?_, ⟨onTime, by simp [SocketAction.delivery]⟩,
    h.acked started carried⟩
  rw [← h.receiver] at phase
  simp only [Sockets.move, phase, if_pos (And.intro running opened)]

/-- Every step of the two-party system is a step of the programs on their sockets, with all
datagrams delivered as they were sent. -/
theorem Opened.realize (h : w.Opened job slack sys) (named : job.fileName.length < nameLen)
    (room : 3 ≤ slack) (path : job.outputFile ≠ none) {a : Action} {t : System}
    (next : System.step job sys a = some t) : w.Realizes job slack t := by
  cases a with
  | name now k => exact h.realize_name named room next
  | poll scan k now => exact h.realize_poll named room next
  | slot now => exact h.realize_slot named room next
  | accept j tv => exact h.realize_accept named path next
  | receive k tv => exact h.realize_receive named next
  | tail tv => exact h.realize_tail next

/-- A run of the two-party system, with all datagrams delivered as they were sent. -/
theorem Opened.realize_run (h : w.Opened job slack sys) (named : job.fileName.length < nameLen)
    (room : 3 ≤ slack) (path : job.outputFile ≠ none) {bs : List Action} {t : System}
    (run : exec (System.step job) sys bs = some t) :
    ∃ as v, EachStep (move job) Tame w as ∧ exec (move job) w as = some v ∧
      v.Opened job slack t :=
  exec_realizes (fun _ _ _ _ related next => related.realize named room path next) h run

/-- What the programs do on their sockets is what the two-party system does: every tame run shows
one of its runs, and when the name fits the blocks and arrays that it is put into, every one of
its runs is shown. -/
theorem sockets_show_system (job : Job) (named : job.fileName.length < nameLen) (slack clock : ℕ)
    (memory memory' : ℕ → UInt8) :
    (∀ as w, EachStep (move job) Tame (start job slack clock memory memory') as →
      exec (move job) (start job slack clock memory memory') as = some w →
        ∃ bs sys, exec (System.step job) (.start clock) bs = some sys ∧ w.Shows sys) ∧
    (3 ≤ slack → job.outputFile ≠ none →
      ∀ bs sys, exec (System.step job) (.start clock) bs = some sys →
        ∃ as w, EachStep (move job) Tame (start job slack clock memory memory') as ∧
          exec (move job) (start job slack clock memory memory') as = some w ∧ w.Shows sys) := by
  constructor
  · intro as w tame run
    obtain ⟨bs, sys, answered, carried⟩ :=
      (simulates named).run (Carries.start job slack clock memory memory') tame run
    exact ⟨bs, sys, answered, carried.toShows⟩
  · intro room path bs sys run
    obtain ⟨as, w, tame, shown, opened⟩ :=
      (Opened.start job slack clock memory memory').realize_run named room path run
    exact ⟨as, w, tame, shown, opened.toShows⟩

/-! ### A damaged ack -/

/-- One bit of an ack. -/
def flipped : List UInt8 := 1 :: List.replicate 15 0

theorem flipped_seen : crcTest (overlay flipped fun _ => 0) flipped.length = false := by
  rw [Bool.eq_false_iff]
  exact (crcTest_overlay 256 (List.replicate 14 0) (fun _ => 0) (by decide)).not.mpr
    (by decide +kernel)

/-- A poll that returns an ack with one wrong bit is a poll that returns nothing. -/
theorem Opened.damaged_poll (h : w.Opened job slack sys) (named : job.fileName.length < nameLen)
    (room : 3 ≤ slack) (top : sys.sender.phase = .top) {k : ℕ} (sent : k < sys.acks.length)
    (scan : ℕ → Timeval) (now : Timeval) {t : System}
    (next : System.step job sys (.poll scan none now) = some t) :
    ∃ v, move job w (.poll scan (some ⟨k, flipped⟩) now) = some v ∧
      Tame w (.poll scan (some ⟨k, flipped⟩) now) v ∧ v.Opened job slack t := by
  have inside : k < ((sys.acks.map Ack.body).map sealed).length := by simpa using sent
  have found := List.getElem?_eq_getElem inside
  have same : flipped.length = ((sys.acks.map Ack.body).map sealed)[k].length := by
    simp [flipped]
  have arrives := Delivery.damaged (fun c => Ack.short_of_mem) (List.mem_of_getElem? found) same
    flipped_seen
  obtain ⟨t', move, carried⟩ := h.poll named (h.sender ▸ top) arrives scan now
  cases next.symm.trans move
  refine ⟨_, ?_, ⟨rfl, fun delivery eq => ?_⟩, h.sent carried⟩
  · rw [Sockets.move, if_pos ⟨h.running room, h.sender ▸ top⟩, h.acks, Delivery.pick, found,
      Option.bind_some, if_pos same, Option.map_some]
  · cases eq
    exact .inr flipped_seen

/-- The run with a loss, a reordering and a duplicate on sockets, with a damaged ack in it. -/
theorem noisy_run : ∃ as w sys,
    EachStep (move System.lossyJob) Tame (start System.lossyJob 3 0 (fun _ => 0) fun _ => 0) as ∧
      exec (move System.lossyJob) (start System.lossyJob 3 0 (fun _ => 0) fun _ => 0) as = some w ∧
      exec (System.step System.lossyJob) (.start 0) System.lossyTransfer = some sys ∧
      w.Opened System.lossyJob 3 sys ∧ sys.sender.phase = .left ∧
      ∃ a ∈ as, a.delivery = some ⟨2, flipped⟩ := by
  have path : System.lossyJob.outputFile ≠ none := by decide
  have named : System.lossyJob.fileName.length < nameLen := by decide
  -- the state before the damaged ack, and the last one
  have evaluated : (exec (System.step System.lossyJob) (.start 0) System.lossyStart).map
      (fun sys => (sys.sender.phase, sys.acks.length)) = some (.top, 3) := by decide +kernel
  have evaluated' : (exec (System.step System.lossyJob) (.start 0) System.lossyTransfer).map
      (·.sender.phase) = some .left := by decide +kernel
  obtain ⟨s, run, middle⟩ := Option.map_eq_some_iff.mp evaluated
  obtain ⟨t, whole, left⟩ := Option.map_eq_some_iff.mp evaluated'
  rw [Prod.mk.injEq] at middle
  obtain ⟨s', polled, rest⟩ : ∃ s', System.step System.lossyJob s (.poll (fun _ => ⟨0, 3⟩) none ⟨0, 3⟩) =
      some s' ∧ exec (System.step System.lossyJob) s' System.lossyRest = some t := by
    rw [System.lossyTransfer, exec_append, run, Option.bind_some] at whole
    exact (exec_cons_eq_some _).mp whole
  obtain ⟨as, w, tame, shown, opened⟩ :=
    (Opened.start System.lossyJob 3 0 (fun _ => 0) fun _ => 0).realize_run named le_rfl path run
  obtain ⟨w', damaged, tame', opened'⟩ := opened.damaged_poll named le_rfl middle.1
    (show 2 < s.acks.length by omega) _ _ polled
  obtain ⟨bs, v, tame'', shown', opened''⟩ := opened'.realize_run named le_rfl path rest
  refine ⟨as ++ .poll (fun _ => ⟨0, 3⟩) (some ⟨2, flipped⟩) ⟨0, 3⟩ :: bs, v, t, ?_, ?_, whole,
    opened'', left, _, List.mem_append_right _ List.mem_cons_self, rfl⟩
  · refine tame.append shown fun w'' next => ?_
    cases damaged.symm.trans next
    exact ⟨tame', tame''⟩
  · rw [exec_append, shown, Option.bind_some]
    exact (exec_cons_eq_some _).mpr ⟨w', damaged, shown'⟩

/-- The transfer of three chunks, on sockets and in the two-party system. -/
theorem sockets_show_lossyTransfer :
    (∃ as w bs sys, (∃ a ∈ as, a.delivery = some ⟨2, flipped⟩) ∧
      exec (move System.lossyJob) (start System.lossyJob 3 0 (fun _ => 0) fun _ => 0) as = some w ∧
      exec (System.step System.lossyJob) (.start 0) bs = some sys ∧ w.Shows sys ∧
      sys.sender.phase = .left) ∧
    ∃ as w sys,
      exec (move System.lossyJob) (start System.lossyJob 3 0 (fun _ => 0) fun _ => 0) as = some w ∧
      exec (System.step System.lossyJob) (.start 0) System.lossyTransfer = some sys ∧ w.Shows sys := by
  obtain ⟨as, w, sys, tame, run, whole, opened, left, damaged⟩ := noisy_run
  have named : System.lossyJob.fileName.length < nameLen := by decide
  obtain ⟨shows, shown⟩ := sockets_show_system System.lossyJob named 3 0 (fun _ => 0) fun _ => 0
  constructor
  · obtain ⟨bs, sys', run', shows'⟩ := shows as w tame run
    refine ⟨as, w, bs, sys', damaged, run, run', shows', ?_⟩
    rw [← shows'.sender, opened.sender]
    exact left
  · obtain ⟨as', w', -, run', shows'⟩ := shown le_rfl (by decide) _ sys whole
    exact ⟨as', w', sys, run', whole, shows'⟩

/-! ### What a noisy network cannot do -/

/-- Over a network whose errors the checksum shows and with clock readings that are on time,
`sendfile` goes outside its memory exactly when fewer than three bytes follow the block it asked
for, and `recvfile` exactly when it has a file name that is too much for its arrays. In every
state that a transfer can reach, the receiver has written the first `last_id` chunks of the file
under the name that was sent, and when the sender has left its main loop or the receiver its own,
the output is the whole file. -/
theorem noisy_transfer (named : job.fileName.length < nameLen) {slack clock : ℕ}
    {memory memory' : ℕ → UInt8} {as : List SocketAction}
    (tame : EachStep (move job) Tame (start job slack clock memory memory') as)
    (run : exec (move job) (start job slack clock memory memory') as = some w) :
    ((w.sender.fault = true ↔ slack < 3) ∧
      (w.receiver.fault = true ↔ w.receiver.recv.phase ≠ .naming ∧ job.outputFile = none)) ∧
    ((w.receiver.recv.phase ≠ .naming → w.receiver.recv.fileName = job.fileName ++ [0]) ∧
      ∀ path, w.output = some path → job.outputFile = some path) ∧
    (w.receiver.recv.lastId ≤ job.file.chunks.length ∧
      w.receiver.recv.written = (job.file.chunks.take w.receiver.recv.lastId).flatten) ∧
    (w.sender.send.phase = .left ∨ w.receiver.recv.readyExit = 2 →
      w.receiver.recv.written = job.file.bytes) := by
  obtain ⟨bs, sys, -, h⟩ :=
    (simulates named).run (Carries.start job slack clock memory memory') tame run
  obtain ⟨q, joint⟩ := h.inv
  have chunks : job.file.chunks.length = job.file.lastChunk + 1 := by simp [RegularFile.chunks]
  rw [h.sender, h.receiver]
  refine ⟨⟨?_, h.receiving⟩, ⟨h.framed.named, h.output⟩, ⟨?_, ?_⟩, fun done => ?_⟩
  · rw [h.sending, decide_eq_true_eq]
  · rw [joint.lastId, chunks]
    exact joint.complete
  · rw [joint.lastId]
    exact joint.written
  · have whole : sys.rcvBase = job.file.lastChunk + 1 := by
      rcases done with left | exit
      · exact joint.left left
      · rw [← joint.lastId]
        exact joint.written_of_exit exit
    rw [joint.written, whole, ← chunks, List.take_length, RegularFile.chunks_flatten]

/-- The file of three chunks arrives over a network that damages an ack. -/
theorem noisy_lossyTransfer : ∃ as w, (∃ a ∈ as, a.delivery = some ⟨2, flipped⟩) ∧
    exec (move System.lossyJob) (start System.lossyJob 3 0 (fun _ => 0) fun _ => 0) as = some w ∧
      (w.sender.fault = false ∧ w.receiver.fault = false) ∧ w.sender.send.phase = .left ∧
      w.receiver.recv.written = System.lossyJob.file.bytes := by
  obtain ⟨as, w, sys, tame, run, -, opened, left, damaged⟩ := noisy_run
  have result := noisy_transfer (by decide) tame run
  rw [← opened.sender] at left
  refine ⟨as, w, damaged, run, ⟨?_, ?_⟩, left, result.2.2.2 (.inl left)⟩
  · exact Bool.eq_false_iff.mpr fun fault => absurd (result.1.1.mp fault) (by decide)
  · exact Bool.eq_false_iff.mpr fun fault => absurd (result.1.2.mp fault).2 (by decide)

end Sockets

end ComputerNetworks.Transfer
