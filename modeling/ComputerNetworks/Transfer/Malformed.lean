import ComputerNetworks.Transfer.Datagram

/-!
# Malformed datagrams

What `recvfile` should make sure of before it uses a datagram, and which datagrams get
past it all the same: one byte alone, which makes the length of the checked block
negative, fewer than twelve bytes that pass the test, a file name longer than its array,
and a frame numbered beyond the array `received` while the window wraps.
-/

namespace ComputerNetworks.Transfer

open Lib

namespace Session

/-- The datagram is accepted: its bytes are copied out of the buffer. -/
def Accepts (p : Poll) (s : Session) : Prop :=
  0 < s.recvlen p ∧ crcTest (s.filled p) (s.recvlen p) = true ∧
    match s.recv.phase with
    | .naming => True
    | .data =>
      let frame := Frame.decode (s.filled p) (s.recvlen p)
      isFresh frame s.recv = true ∧ isOpen p.beyond frame (s.recv.announce frame) = true
    | .tail _ => False

/-- The size of the block that an accepted datagram is copied to. -/
def capacity (s : Session) : ℕ := if s.recv.phase = .naming then nameLen else bufLen + 12 + 4

/-- Malformed datagrams are rejected: the checksum is computed over the bytes of the
datagram, and an accepted one has a whole header, is read the same whatever was in the
buffer before, has its number inside `received` and fits where it is copied. -/
structure Guarded (s : Session) (p : Poll) : Prop where
  checksum : 0 < s.recvlen p →
    block (fun i => s.filled p (i + 2)) (crcLen (s.recvlen p)) = (s.stored p).drop 2
  whole : s.Accepts p → 12 ≤ s.recvlen p
  fields : s.Accepts p → ∀ memory, Frame.decode (overlay (s.stored p) memory) (s.recvlen p) =
    Frame.decode (s.filled p) (s.recvlen p)
  slot : s.Accepts p → s.recv.phase = .data →
    (Frame.decode (s.filled p) (s.recvlen p)).seqNum < seqLen
  copied : s.Accepts p → 0 ≤ (s.recvlen p : ℤ) - 8 - 4 ∧ (s.recvlen p : ℤ) - 8 - 4 ≤ s.capacity

/-- A datagram that `recvfile` treats safely: not a single byte; shorter than a header only if
the test fails, or the loop has left the file name behind and what the buffer then holds is no
frame that starts a chunk or none that is to be buffered; a file name that fits; and no frame
numbered beyond `received`, unless the window does not wrap or the memory there is not zero. -/
structure Harmless (s : Session) (p : Poll) : Prop where
  single : s.recvlen p ≠ 1
  short : 0 < s.recvlen p → s.recvlen p < 12 → crcTest (s.filled p) (s.recvlen p) = true →
    s.recv.phase ≠ .naming ∧ (s.recv.phase = .data →
      isFresh (Frame.decode (s.filled p) (s.recvlen p)) s.recv = false ∨
        isOpen p.beyond (Frame.decode (s.filled p) (s.recvlen p))
          (s.recv.announce (Frame.decode (s.filled p) (s.recvlen p))) = false)
  name : s.recv.phase = .naming → crcTest (s.filled p) (s.recvlen p) = true →
    s.recvlen p ≤ 8 + 4 + nameLen
  number : s.recv.phase = .data → 0 < s.recvlen p →
    crcTest (s.filled p) (s.recvlen p) = true →
    isFresh (Frame.decode (s.filled p) (s.recvlen p)) s.recv = true →
      (Frame.decode (s.filled p) (s.recvlen p)).seqNum < seqLen ∨ s.recv.laSeq ≤ 8 ∨
        p.beyond (Frame.decode (s.filled p) (s.recvlen p)).seqNum = true

/-! ### Reading a datagram -/

theorem overlay_of_lt {bytes : List UInt8} {memory : ℕ → UInt8} {i : ℕ} (inside : i < bytes.length)
    (memory' : ℕ → UInt8) : overlay bytes memory i = overlay bytes memory' i := by
  simp [overlay, inside]

/-- Bytes that are not behind the datagram are its own. -/
theorem block_overlay_drop (bytes : List UInt8) (memory : ℕ → UInt8) (k : ℕ) :
    block (fun i => overlay bytes memory (i + k)) (bytes.length - k) = bytes.drop k := by
  apply List.ext_getElem
  · simp
  · intro i _ hi
    rw [List.length_drop] at hi
    simp [block, overlay, show i + k < bytes.length by omega, Nat.add_comm k]

/-- A frame with a whole header is read from its datagram alone. -/
theorem decode_overlay {bytes : List UInt8} (whole : 12 ≤ bytes.length) (memory memory' : ℕ → UInt8) :
    Frame.decode (overlay bytes memory) bytes.length =
      Frame.decode (overlay bytes memory') bytes.length := by
  have same : ∀ i < bytes.length, overlay bytes memory i = overlay bytes memory' i :=
    fun i hi => overlay_of_lt hi memory'
  have short : ∀ i, i + 1 < bytes.length →
      ntohs (overlay bytes memory) i = ntohs (overlay bytes memory') i := by
    intro i hi
    rw [ntohs, ntohs, same i (by omega), same (i + 1) hi]
  have payload := block_overlay_drop bytes memory 12
  have payload' := block_overlay_drop bytes memory' 12
  unfold Frame.decode ntohl
  rw [short 2 (by omega), short 6 (by omega), short 8 (by omega), short (8 + 2) (by omega),
    Nat.sub_sub, payload, payload']

/-! ### One poll -/

variable {s t : Session} {p : Poll}

@[simp] theorem laSeq_announce (frame : Frame) (r : Receiver) :
    (r.announce frame).laSeq = r.laSeq := by
  unfold Receiver.announce
  split_ifs <;> rfl

theorem laSeq_accept (frame : Frame) (r : Receiver) : (r.accept frame).laSeq < seqLen :=
  Nat.mod_lt _ (by decide)

theorem laSeq_nameDatagram (inside : s.recv.laSeq < seqLen) :
    (s.nameDatagram p).recv.laSeq < seqLen := by
  unfold nameDatagram
  dsimp only
  split_ifs <;> exact inside

theorem laSeq_dataFrame {beyond : ℕ → Bool} {frame : Frame} {recvlen : ℕ}
    (inside : s.recv.laSeq < seqLen) :
    (dataFrame beyond frame recvlen s).recv.laSeq < seqLen := by
  unfold dataFrame
  dsimp only
  split_ifs
  · exact inside
  · exact laSeq_accept _ _
  · exact (laSeq_announce frame s.recv).trans_lt inside
  · exact inside

theorem laSeq_dataDatagram (inside : s.recv.laSeq < seqLen) :
    (s.dataDatagram p).recv.laSeq < seqLen := by
  unfold dataDatagram
  dsimp only
  split_ifs
  · exact inside
  · exact laSeq_dataFrame inside
  · exact inside

/-- The window stays inside the array. -/
theorem step_laSeq (inside : s.recv.laSeq < seqLen) (next : s.step p = some t) :
    t.recv.laSeq < seqLen := by
  unfold step at next
  split_ifs at next
  all_goals
    cases phase : s.recv.phase <;> rw [phase] at next
    case tail => cases next
    all_goals obtain rfl := Option.some.inj next
  · exact laSeq_nameDatagram inside
  · exact laSeq_dataDatagram inside
  · exact inside
  · exact inside

theorem recvlen_le : s.recvlen p ≤ s.request := List.length_take_le _ _

/-- An index beyond `received` passes the window test exactly when the window wraps. -/
theorem isOpen_beyond {beyond : ℕ → Bool} {frame : Frame} {r : Receiver} (inside : r.laSeq < seqLen)
    (outside : seqLen ≤ frame.seqNum) :
    isOpen beyond frame r = true ↔ 8 < r.laSeq ∧ beyond frame.seqNum = false := by
  have window : between r.laSeq ((r.laSeq + windowLen - 1) % seqLen) frame.seqNum = true ↔
      8 < r.laSeq := by
    unfold between
    dsimp only [seqLen, windowLen] at *
    split_ifs <;> rw [decide_eq_true_eq] <;> omega
  rw [isOpen, isReceived, if_neg (not_lt.mpr outside), Bool.and_eq_true, window,
    Bool.not_eq_true']

theorem Guarded.harmless (h : s.Guarded p) (inside : s.recv.laSeq < seqLen) : s.Harmless p := by
  have length : s.recvlen p = (s.stored p).length := rfl
  constructor
  case single =>
    intro single
    have covered := congrArg List.length (h.checksum (by omega))
    rw [length_block, List.length_drop, single, crcLen_eq (by decide) (by decide), if_pos rfl,
      ← length, single] at covered
    cases covered
  case short =>
    intro more short passes
    -- accepted, it would have a whole header
    have rejected : ¬ s.Accepts p := fun accepted => by
      have := h.whole accepted
      omega
    refine ⟨fun naming => rejected ⟨more, passes, by rw [naming]; trivial⟩, fun data => ?_⟩
    by_contra both
    rw [not_or, Bool.not_eq_false, Bool.not_eq_false] at both
    exact rejected ⟨more, passes, by rw [data]; exact both⟩
  case name =>
    intro phase passes
    by_contra long
    have accepted : s.Accepts p := ⟨by omega, passes, by rw [phase]; trivial⟩
    have := (h.copied accepted).2
    rw [capacity, if_pos phase] at this
    dsimp only [nameLen] at *
    omega
  case number =>
    intro phase more passes fresh
    by_contra outside
    rw [not_or, not_or, not_lt, not_le, Bool.not_eq_true] at outside
    have accepted : s.Accepts p := by
      refine ⟨more, passes, ?_⟩
      rw [phase]
      refine ⟨fresh, (isOpen_beyond ?_ outside.1).mpr ?_⟩
      · exact (laSeq_announce _ _).trans_lt inside
      · rw [laSeq_announce]
        exact outside.2
    exact absurd (h.slot accepted phase) (not_lt.mpr outside.1)

theorem Harmless.guarded (h : s.Harmless p) (inside : s.recv.laSeq < seqLen) : s.Guarded p := by
  have bound : s.recvlen p ≤ s.request := recvlen_le
  have whole : s.Accepts p → 12 ≤ s.recvlen p := by
    intro accepted
    by_contra short
    obtain ⟨more, passes, rest⟩ := accepted
    obtain ⟨named, refused⟩ := h.short more (by omega) passes
    cases phase : s.recv.phase with
    | naming => exact named phase
    | tail remaining =>
      rw [phase] at rest
      exact rest
    | data =>
      rw [phase] at rest
      rcases refused phase with stale | closed
      · cases stale.symm.trans rest.1
      · cases closed.symm.trans rest.2
  constructor
  case checksum =>
    intro more
    have request := bound.trans s.request_le
    rw [crcLen_eq more (request.trans (by decide)), if_neg h.single]
    exact block_overlay_drop _ _ 2
  case whole => exact whole
  case fields =>
    intro accepted memory
    exact decode_overlay (whole accepted) _ _
  case slot =>
    intro accepted phase
    by_contra outside
    obtain ⟨more, passes, rest⟩ := accepted
    rw [phase] at rest
    obtain ⟨fresh, opened⟩ := rest
    have wraps := (isOpen_beyond (by rwa [laSeq_announce]) (not_lt.mp outside)).mp opened
    rw [laSeq_announce] at wraps
    rcases h.number phase more passes fresh with small | unwrapped | blocked
    · exact outside small
    · omega
    · rw [wraps.2] at blocked
      cases blocked
  case copied =>
    intro accepted
    have := whole accepted
    refine ⟨by omega, ?_⟩
    unfold capacity
    split_ifs with phase
    · have := h.name phase accepted.2.1
      dsimp only [nameLen] at *
      omega
    · rw [request, if_neg phase] at bound
      omega

/-- What is to be made sure of, and the datagrams that get past it. -/
theorem guarded_iff_harmless (inside : s.recv.laSeq < seqLen) : Guarded s p ↔ Harmless s p :=
  ⟨fun h => h.harmless inside, fun h => h.guarded inside⟩

end Session

/-- Malformed datagrams are rejected in a run of `recvfile` exactly when each of them is
harmless. -/
theorem guarded_eachStep (memory : ℕ → UInt8) (polls : List Poll) :
    EachStep Session.step (fun s p _ => s.Guarded p) (.start memory) polls ↔
      EachStep Session.step (fun s p _ => s.Harmless p) (.start memory) polls := by
  apply EachStep.iff_of_invariant (I := fun s => s.recv.laSeq < seqLen)
  · intro s p t inside next _
    exact Session.step_laSeq inside next
  · intro s p t inside _
    exact Session.guarded_iff_harmless inside
  · exact show 0 < seqLen by decide

/-- Two zero bytes are accepted as a file name. -/
theorem not_guarded_two_zeros :
    ¬ EachStep Session.step (fun s p _ => s.Guarded p) (.start fun _ => 0)
      [⟨some [0, 0], fun _ => false, ⟨0, 0⟩⟩] := by
  intro each
  have next : (Session.start fun _ => 0).step ⟨some [0, 0], fun _ => false, ⟨0, 0⟩⟩ = some _ := rfl
  have guarded := (each _ next).1
  have sum : crcTest (overlay [0, 0] fun _ => 0) 2 = true :=
    (crcTest_overlay 0 [] (fun _ => 0) (by decide)).mpr (by decide +kernel)
  have := guarded.whole ⟨by decide, sum, trivial⟩
  revert this
  decide

end ComputerNetworks.Transfer
