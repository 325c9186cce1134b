import ComputerNetworks.Echo.Framing
import ComputerNetworks.Lib.Runs

/-!
# An echo connection

A client stream of frames, cut into reads in any way, and the select loop, which reads
whenever there is data and sends only while `pending_data` is set. The connection law
says that the buffer always holds what is to be echoed next. It breaks when a read
reaches into the next frame or comes in while an echo is pending, since one position
serves both directions; the run theorem says that nothing else breaks it.
-/

namespace ComputerNetworks.Echo

open Lib

/-- A node, with all the bytes that went in and out. -/
structure Connection where
  node : Node
  received : List UInt8
  echoed : List UInt8

/-- A read of some number of bytes, or an echo of all that is requested. -/
inductive Action
  | read (n : ℕ)
  | echo
  deriving DecidableEq, Repr

namespace Connection

variable (frames : List (List UInt8))

/-- The number of bytes in the first `m` frames. -/
def boundary (m : ℕ) : ℕ := (frames.take m).flatten.length

/-- The transition function. The first read of a message has at least two bytes, and an
echo sends what is left of the message; where nothing is left, the connection ends. -/
def step (conn : Connection) : Action → Option Connection
  | .read n =>
    let bytes := (frames.flatten.drop conn.received.length).take n
    if 0 < n ∧ bytes.length = n ∧ n ≤ conn.node.recvRequest ∧ (conn.node.lenBuffer = 0 → 2 ≤ n) then
      some { conn with
        node := conn.node.serverRecieving bytes
        received := conn.received ++ bytes }
    else none
  | .echo =>
    if conn.node.pendingData ∧ conn.node.addedPos < conn.node.lenBuffer then
      let sent := conn.node.serverSending (conn.node.lenBuffer - conn.node.addedPos)
      some { conn with node := sent.1, echoed := conn.echoed ++ sent.2 }
    else none

/-- A connection just accepted. -/
def start (memory : ℕ → UInt8) : Connection := ⟨.fresh memory, [], []⟩

/-- The bytes of the buffer that are to be sent. -/
def toSend (conn : Connection) : List UInt8 :=
  slice conn.node.buffer conn.node.addedPos (conn.node.lenBuffer - conn.node.addedPos)

/-- The law: what is to be sent is the rest of the frame being echoed, the echo is a
prefix of the input, and nothing is pending only if no frame is owed. -/
structure Law (conn : Connection) : Prop where
  pending : conn.node.pendingData = true → ∃ m frame, frames[m]? = some frame ∧
    boundary frames m ≤ conn.echoed.length ∧ conn.echoed.length < boundary frames (m + 1) ∧
      conn.toSend = frame.drop (conn.echoed.length - boundary frames m)
  isPrefix : conn.echoed <+: conn.received
  idle : conn.node.pendingData = false → ¬ ∃ m < frames.length,
    boundary frames (m + 1) ≤ conn.received.length ∧ conn.echoed.length < boundary frames (m + 1)

/-- A read happens only while no echo is pending, and does not go past the end of the
frame it starts in. -/
def InFrame (conn : Connection) : Action → Prop
  | .read n => conn.node.pendingData = false ∧
    ∀ m ≤ frames.length,
      conn.received.length < boundary frames m → conn.received.length + n ≤ boundary frames m
  | .echo => True

/-- What a connection whose reads stay in their frames is doing; the frames before the
`m`-th have been echoed. -/
inductive Serving (conn : Connection) : Prop
  /-- Nothing of frame `m` has been read. -/
  | idle (m : ℕ) (echoed : conn.echoed = (frames.take m).flatten)
      (received : conn.received = (frames.take m).flatten) (pending : conn.node.pendingData = false)
      (addedPos : conn.node.addedPos = 0) (lenBuffer : conn.node.lenBuffer = 0)
  /-- A part of frame `m` has been read. -/
  | reading (m : ℕ) (held rest : List UInt8) (found : frames[m]? = some (held ++ rest))
      (two : 2 ≤ held.length) (more : rest ≠ []) (echoed : conn.echoed = (frames.take m).flatten)
      (received : conn.received = (frames.take m).flatten ++ held)
      (pending : conn.node.pendingData = false) (addedPos : conn.node.addedPos = held.length)
      (lenBuffer : conn.node.lenBuffer = (held ++ rest).length)
      (holds : slice conn.node.buffer 0 held.length = held)
  /-- Frame `m` has been read and is pending. -/
  | pending (m : ℕ) (frame : List UInt8) (found : frames[m]? = some frame)
      (echoed : conn.echoed = (frames.take m).flatten)
      (received : conn.received = (frames.take m).flatten ++ frame)
      (pending : conn.node.pendingData = true) (addedPos : conn.node.addedPos = 0)
      (lenBuffer : conn.node.lenBuffer = frame.length)
      (holds : slice conn.node.buffer 0 frame.length = frame)

variable {frames} {m : ℕ} {conn conn' : Connection}

theorem take_succ_of_getElem? {frame : List UInt8} (found : frames[m]? = some frame) :
    frames.take (m + 1) = frames.take m ++ [frame] := by
  rw [List.take_add_one, found]
  rfl

theorem boundary_succ {frame : List UInt8} (found : frames[m]? = some frame) :
    boundary frames (m + 1) = boundary frames m + frame.length := by
  simp [boundary, take_succ_of_getElem? found]

variable (frames) in
theorem boundary_mono {k : ℕ} (le : m ≤ k) : boundary frames m ≤ boundary frames k := by
  unfold boundary
  rw [← Nat.add_sub_cancel' le, List.take_add, List.flatten_append, List.length_append]
  exact Nat.le_add_right _ _

/-- What is left of the stream within frame `m`. -/
theorem stream_drop (held rest : List UInt8) (found : frames[m]? = some (held ++ rest)) :
    frames.flatten.drop ((frames.take m).flatten ++ held).length =
      rest ++ (frames.drop (m + 1)).flatten := by
  have split : frames.flatten =
      (frames.take m).flatten ++ held ++ (rest ++ (frames.drop (m + 1)).flatten) := by
    conv_lhs => rw [← List.take_append_drop (m + 1) frames, take_succ_of_getElem? found]
    simp
  rw [split, List.drop_left]

/-! ### Steps -/

/-- A read within frame `m` holds more of it, and all of it makes it pending. -/
theorem Serving.read {held rest bytes : List UInt8} (found : frames[m]? = some (held ++ bytes ++ rest))
    (wellFormed : IsFrame (held ++ bytes ++ rest)) (some_ : bytes ≠ [])
    (two : held = [] → 2 ≤ bytes.length) (held_two : held ≠ [] → 2 ≤ held.length)
    (echoed : conn.echoed = (frames.take m).flatten)
    (received : conn.received = (frames.take m).flatten ++ held)
    (pending : conn.node.pendingData = false) (addedPos : conn.node.addedPos = held.length)
    (lenBuffer : conn.node.lenBuffer = if held = [] then 0 else (held ++ bytes ++ rest).length)
    (holds : slice conn.node.buffer 0 held.length = held) :
    Serving frames { conn with
      node := conn.node.serverRecieving bytes
      received := conn.received ++ bytes } := by
  have enough : 2 ≤ (held ++ bytes).length := by
    rw [List.length_append]
    by_cases empty : held = []
    · have := two empty
      omega
    · have := held_two empty
      omega
  have reading : conn.node.Reading (held ++ bytes ++ rest) held := by
    refine ⟨pending, addedPos, ?_, holds⟩
    rw [lenBuffer]
    split_ifs
    · exact .inr rfl
    · exact .inl rfl
  have length := reading.length_two wellFormed rfl enough
  by_cases whole : rest = []
  · subst whole
    rw [List.append_nil] at found reading length
    have ready := reading.ready rfl some_ length
    refine .pending m (held ++ bytes) found echoed ?_ ready.pendingData ready.addedPos
      ready.lenBuffer ready.holds
    simp [received]
  · have read := reading.read rfl some_ whole (.inl length)
    refine .reading m (held ++ bytes) rest found enough whole echoed ?_ read.pendingData
      read.addedPos ?_ read.holds
    · simp [received]
    · rw [Node.lenBuffer_serverRecieving _ some_]
      exact length

/-- An echo sends the pending frame in whole. -/
theorem Serving.echo (h : Serving frames conn) (wellFormed : ∀ frame ∈ frames, IsFrame frame)
    (next : conn.step frames .echo = some conn') : Serving frames conn' := by
  simp only [Connection.step, Option.ite_none_right_eq_some, Option.some.injEq] at next
  obtain ⟨⟨set, -⟩, rfl⟩ := next
  cases h with
  -- an echo needs a pending message
  | idle m echoed received pending => simp [pending] at set
  | reading m held rest found held_two more echoed received pending => simp [pending] at set
  | pending m frame found echoed received pending addedPos lenBuffer holds =>
    have whole : (frames.take (m + 1)).flatten = (frames.take m).flatten ++ frame := by
      simp [take_succ_of_getElem? found]
    have positive : 0 < frame.length := by
      have := (wellFormed frame (List.mem_of_getElem? found)).short
      omega
    have sent : conn.node.serverSending (conn.node.lenBuffer - conn.node.addedPos) =
        ({ conn.node with addedPos := 0, pendingData := false, lenBuffer := 0 }, frame) := by
      rw [Node.serverSending, addedPos, lenBuffer, Nat.sub_zero, if_pos positive, if_pos rfl, holds]
    rw [sent]
    refine .idle (m + 1) ?_ (received.trans whole.symm) rfl rfl rfl
    rw [whole, ← echoed]

/-- Reads that stay in their frames, and echoes, keep to the protocol. -/
theorem Serving.step (h : Serving frames conn) (wellFormed : ∀ frame ∈ frames, IsFrame frame)
    {action : Action} (next : conn.step frames action = some conn')
    (inFrame : conn.InFrame frames action) : Serving frames conn' := by
  cases action with
  | read n =>
    simp only [Connection.step, Option.ite_none_right_eq_some, Option.some.injEq] at next
    obtain ⟨⟨positive, available, -, two⟩, rfl⟩ := next
    cases h with
    | idle m echoed received pending addedPos lenBuffer =>
      -- bytes are available, so a frame begins here
      obtain ⟨frame, found⟩ : ∃ frame, frames[m]? = some frame := by
        cases found : frames[m]? with
        | some frame => exact ⟨frame, rfl⟩
        | none =>
          rw [List.getElem?_eq_none_iff] at found
          rw [received, List.take_of_length_le found, List.drop_length] at available
          simp at available
          omega
      -- the read ends with the frame at the latest
      have bound := inFrame.2 (m + 1) (List.getElem?_eq_some_iff.mp found).1
      rw [boundary_succ found, received, ← boundary] at bound
      have short := (wellFormed frame (List.mem_of_getElem? found)).short
      have stream := stream_drop [] frame found
      rw [List.append_nil, ← received] at stream
      rw [stream, List.take_append_of_le_length (by omega)] at available ⊢
      have whole : [] ++ frame.take n ++ frame.drop n = frame := List.take_append_drop n frame
      have read := two lenBuffer
      have start : slice conn.node.buffer 0 ([] : List UInt8).length = [] := rfl
      exact Serving.read (by rw [whole, found])
        (by rw [whole]; exact wellFormed frame (List.mem_of_getElem? found))
        (by rw [← List.length_pos_iff]; omega) (by omega) (absurd rfl) echoed
        (by simpa using received) pending addedPos lenBuffer start
    | reading m held rest found held_two more echoed received pending addedPos lenBuffer holds =>
      have bound := inFrame.2 (m + 1) (List.getElem?_eq_some_iff.mp found).1
      have some_rest := List.length_pos_iff.mpr more
      rw [boundary_succ found, received, List.length_append, List.length_append, ← boundary] at bound
      rw [received, stream_drop held rest found, List.take_append_of_le_length (by omega)] at available ⊢
      have whole : held ++ rest.take n ++ rest.drop n = held ++ rest := by simp
      have held_some : held ≠ [] := by
        rintro rfl
        simp at held_two
      rw [← received]
      exact Serving.read (by rw [whole, found])
        (by rw [whole]; exact wellFormed _ (List.mem_of_getElem? found))
        (by rw [← List.length_pos_iff]; omega) (absurd · held_some) (fun _ => held_two) echoed
        received pending addedPos (by rw [if_neg held_some, whole]; exact lenBuffer) holds
    -- no read comes in while an echo is pending
    | pending m frame found echoed received pending => exact absurd inFrame.1 (by simp [pending])
  | echo => exact h.echo wellFormed next

/-! ### The law -/

/-- Frames echoed in whole are followed by the frames before `m` only. -/
theorem boundary_le_of_take {k : ℕ} (more : ((frames.take m).flatten).length < boundary frames (k + 1)) :
    m ≤ k := by
  by_contra h
  have := boundary_mono frames (show k + 1 ≤ m by omega)
  unfold boundary at this more
  omega

/-- A connection in order keeps the law. -/
theorem Serving.law (h : Serving frames conn) (wellFormed : ∀ frame ∈ frames, IsFrame frame) :
    Law frames conn := by
  cases h with
  | idle m echoed received pending =>
    refine ⟨fun set => ?_, ?_, ?_⟩
    · simp [pending] at set
    · have same : conn.echoed = conn.received := echoed.trans received.symm
      exact same ▸ List.prefix_refl _
    -- a frame that is read in whole and not yet echoed would end before the bytes received
    · rintro - ⟨k, -, read, owed⟩
      rw [received] at read
      rw [echoed] at owed
      omega
  | reading m held rest found two more echoed received pending =>
    refine ⟨fun set => ?_, ?_, ?_⟩
    · simp [pending] at set
    · rw [echoed, received]
      exact List.prefix_append _ _
    · rintro - ⟨k, -, read, owed⟩
      rw [echoed] at owed
      have later := boundary_mono frames
        (show m + 1 ≤ k + 1 by have := boundary_le_of_take owed; omega)
      have some_rest := List.length_pos_iff.mpr more
      rw [boundary_succ found, List.length_append] at later
      rw [received, List.length_append, ← boundary] at read
      omega
  | pending m frame found echoed received pending addedPos lenBuffer holds =>
    refine ⟨fun _ => ⟨m, frame, found, ?_, ?_, ?_⟩, ?_, fun unset => ?_⟩
    · exact echoed ▸ Nat.le_refl _
    · have short := (wellFormed frame (List.mem_of_getElem? found)).short
      rw [echoed, boundary_succ found, boundary]
      omega
    · rw [toSend, addedPos, lenBuffer, Nat.sub_zero, holds, echoed, boundary, Nat.sub_self,
        List.drop_zero]
    · rw [echoed, received]
      exact List.prefix_append _ _
    · simp [pending] at unset

/-- In a run whose reads come in while no echo is pending and stay in the frame they
start in, every connection state keeps the law. -/
theorem law_of_inFrame (wellFormed : ∀ frame ∈ frames, IsFrame frame) {memory : ℕ → UInt8}
    {actions : List Action}
    (inFrame : EachStep (step frames) (fun conn action _ => conn.InFrame frames action)
      (start memory) actions)
    (run : exec (step frames) (start memory) actions = some conn) : Law frames conn := by
  have serving : Serving frames conn :=
    inFrame.invariant (fun _ _ _ h next law => h.step wellFormed next law)
      (.idle 0 rfl rfl rfl rfl rfl) run
  exact serving.law wellFormed

/-- A frame of ten bytes. -/
def tenBytes : List UInt8 := [0, 10, 1, 2, 3, 4, 5, 6, 7, 8]

theorem isFrame_tenBytes : ∀ frame ∈ [tenBytes, tenBytes], IsFrame frame := by
  have one : IsFrame tenBytes := ⟨by decide, by decide, by decide⟩
  simpa using one

/-- A client that waits for the echo of its first frame, which is read in two pieces. -/
theorem twoReads_law : ∃ conn, exec (step [tenBytes, tenBytes]) (start fun _ => 0)
    [.read 4, .read 6, .echo] = some conn ∧ Law [tenBytes, tenBytes] conn := by
  obtain ⟨conn, run⟩ : ∃ conn, exec (step [tenBytes, tenBytes]) (start fun _ => 0)
      [.read 4, .read 6, .echo] = some conn := ⟨_, rfl⟩
  refine ⟨conn, run, law_of_inFrame isFrame_tenBytes ?_ run⟩
  rintro t ⟨⟩
  refine ⟨And.intro rfl (by decide +kernel), ?_⟩
  rintro t ⟨⟩
  refine ⟨And.intro rfl (by decide +kernel), ?_⟩
  rintro t ⟨⟩
  exact ⟨trivial, trivial⟩

/-- Two frames that arrive in one read are never echoed: a full frame was read, nothing
is pending and nothing was echoed. -/
theorem twoFrames_not_pending : (∀ frame ∈ [tenBytes, tenBytes], IsFrame frame) ∧
    ∃ conn, exec (step [tenBytes, tenBytes]) (start fun _ => 0) [.read 20] = some conn ∧
      ¬ Law [tenBytes, tenBytes] conn :=
  ⟨isFrame_tenBytes, _, rfl, fun law => law.idle rfl ⟨0, by decide, by decide +kernel, by decide +kernel⟩⟩

end Connection

end ComputerNetworks.Echo
