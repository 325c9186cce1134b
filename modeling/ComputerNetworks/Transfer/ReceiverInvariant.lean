import ComputerNetworks.Transfer.Receiver
import ComputerNetworks.Transfer.SenderInvariant

/-!
# The reassembly law of the receiver

`Receiver.Buffering file base sent r` says that `r` has written exactly the first
`base` chunks of the file, that its window starts there, and that every slot
marked as received holds the right chunk, one of the `sent` chunks the sender has
created. Handling any frame of those chunks keeps the law and moves `base` over
the chunks it writes.
-/

namespace ComputerNetworks.Transfer

open Lib

namespace Receiver

/-- The chunks before `base` are written, and marked slots hold their chunks. The
first slot may be marked too, as it is while a run is being written. -/
structure Loaded (file : RegularFile) (base sent : ℕ) (r : Receiver) : Prop where
  lastId : r.lastId = base
  small : base < 2 ^ 32
  behind : base ≤ sent
  written : r.written = ((List.range base).map file.chunk).flatten
  length : r.root.length = windowLen
  inside : ∀ j < seqLen, r.received ((base + j) % seqLen) = true → j < windowLen
  created : ∀ j < windowLen, r.received ((base + j) % seqLen) = true →
    base + j < sent ∧ base + j + 1 < 2 ^ 32
  stored : ∀ j < windowLen, r.received ((base + j) % seqLen) = true →
    (r.root[j]?.map RecvNode.content) = some (file.chunk (base + j))
  announced : ∀ j < windowLen, r.received ((base + j) % seqLen) = true →
    base + j = file.lastChunk → r.readyExit ≠ 0

/-- `ready_exit` and `last_window` tell of the last chunk, once its frame came. -/
structure Announced (file : RegularFile) (sent : ℕ) (r : Receiver) : Prop where
  known : r.readyExit ≠ 0 →
    file.lastChunk < sent ∧ r.lastWindow = ((file.lastChunk % seqLen : ℕ) : ℤ)

/-- The state of the receiver between two frames. -/
structure Buffering (file : RegularFile) (base sent : ℕ) (r : Receiver) : Prop
    extends Loaded file base sent r, Announced file sent r where
  laSeq : r.laSeq = base % seqLen
  waiting : r.received (base % seqLen) = false
  pending : base ≤ file.lastChunk → r.readyExit ≠ 2

variable {file : RegularFile} {base sent : ℕ} {r : Receiver}

/-- The law persists when the sender creates more chunks. -/
theorem Buffering.mono (h : Buffering file base sent r) {sent' : ℕ} (more : sent ≤ sent') :
    Buffering file base sent' r :=
  { h with
    behind := h.behind.trans more
    created := fun j hj marked =>
      ⟨(h.created j hj marked).1.trans_le more, (h.created j hj marked).2⟩
    known := fun exit => ⟨(h.known exit).1.trans_le more, (h.known exit).2⟩ }

/-- The law does not speak of the program counter. -/
theorem Buffering.setPhase (h : Buffering file base sent r) (phase : ReceiverPhase) :
    Buffering file base sent { r with phase := phase } :=
  { h with }

/-- The law when the queue has just been set up. -/
theorem Buffering.start (file : RegularFile) (sent : ℕ) (frame : Frame) (tv : Timeval) :
    Buffering file 0 sent (Receiver.start.nameIteration frame tv).1 := by
  constructor <;> try constructor
  all_goals simp [Receiver.nameIteration, Receiver.start]

/-! ### Counting and writing a run -/

/-- The count of the run: its slots are marked, and the next one is not. -/
theorem runLength_spec (received : ℕ → Bool) (i n : ℕ) :
    runLength received i n ≤ n ∧
      (∀ j < runLength received i n, received ((i + j) % seqLen) = true) ∧
      (runLength received i n < n → received ((i + runLength received i n) % seqLen) = false) := by
  induction n generalizing i with
  | zero => simp [runLength]
  | succ n ih =>
    obtain ⟨bound, marked, next⟩ := ih (i + 1)
    unfold runLength
    split_ifs with here
    · refine ⟨by omega, fun j hj => ?_, fun more => ?_⟩
      · cases j with
        | zero => exact here
        | succ j => simpa [Nat.add_assoc, Nat.add_comm 1] using marked j (by omega)
      · simpa [Nat.add_assoc, Nat.add_comm 1] using next (by omega)
    · exact ⟨Nat.zero_le _, by simp, fun _ => by simpa using here⟩

/-- Writing the first node moves the base by one chunk. -/
theorem Loaded.writeHead (h : Loaded file base sent r) {k : ℕ}
    (slot : (r.laSeq + k) % seqLen = base % seqLen) (ready : r.received (base % seqLen) = true) :
    Loaded file (base + 1) sent (r.writeHead k) := by
  have ready' : r.received ((base + 0) % seqLen) = true := ready
  obtain ⟨isSent, small⟩ := h.created 0 (by decide) ready'
  have content := h.stored 0 (by decide) ready'
  -- slot `j` of the moved window is slot `j + 1` of the old one, and the cleared slot is outside
  have shift : ∀ j, (r.writeHead k).received ((base + 1 + j) % seqLen) = true → j < seqLen →
      j + 1 < seqLen ∧ r.received ((base + (j + 1)) % seqLen) = true := by
    intro j marked hj
    rw [show base + 1 + j = base + (j + 1) by omega] at marked
    simp only [Receiver.writeHead, slot, Function.update_apply] at marked
    split_ifs at marked with cleared
    refine ⟨?_, marked⟩
    dsimp only [seqLen] at *
    omega
  obtain ⟨head, rest, root⟩ := List.exists_cons_of_length_eq_add_one h.length
  refine ⟨?_, by omega, by omega, ?_, ?_, ?_, ?_, ?_, ?_⟩
  · simp only [Receiver.writeHead, h.lastId]
    exact Nat.mod_eq_of_lt small
  · simp only [root, List.getElem?_cons_zero, Option.map_some, Option.some.injEq] at content
    simp [Receiver.writeHead, h.written, root, content, List.range_succ]
  · have length := h.length
    simp only [root, List.length_cons] at length
    simp [Receiver.writeHead, root, length]
  · intro j hj marked
    obtain ⟨hj', old⟩ := shift j marked hj
    have := h.inside (j + 1) hj' old
    omega
  · intro j hj marked
    obtain ⟨hj', old⟩ := shift j marked (by dsimp only [windowLen, seqLen] at *; omega)
    have := h.created (j + 1) (h.inside _ hj' old) old
    omega
  · intro j hj marked
    obtain ⟨hj', old⟩ := shift j marked (by dsimp only [windowLen, seqLen] at *; omega)
    have within := h.inside (j + 1) hj' old
    have length := h.length
    have content := h.stored (j + 1) within old
    simp only [root, List.getElem?_cons_succ, List.length_cons] at content length
    simp only [Receiver.writeHead, root, enqueue_eq, dequeue_eq, List.drop_succ_cons, List.drop_zero]
    rw [List.getElem?_append_left (by omega), content]
    congr 2
    omega
  · intro j hj marked last
    obtain ⟨hj', old⟩ := shift j marked (by dsimp only [windowLen, seqLen] at *; omega)
    exact h.announced (j + 1) (h.inside _ hj' old) old (by omega)

/-- The write loop touches neither the window nor the exit variables. -/
theorem writeRun_frame (count k : ℕ) (r : Receiver) :
    (r.writeRun count k).laSeq = r.laSeq ∧ (r.writeRun count k).readyExit = r.readyExit ∧
      (r.writeRun count k).lastWindow = r.lastWindow := by
  induction count generalizing k r with
  | zero => exact ⟨rfl, rfl, rfl⟩
  | succ count ih => exact ih (k + 1) (r.writeHead k)

/-- Writing a run of marked slots moves the base behind it and leaves the flag of
the next slot alone. -/
theorem Loaded.writeRun {count k : ℕ} (h : Loaded file base sent r)
    (slot : (r.laSeq + k) % seqLen = base % seqLen) (bound : count ≤ windowLen)
    (run : ∀ j < count, r.received ((base + j) % seqLen) = true) :
    Loaded file (base + count) sent (r.writeRun count k) ∧
      (r.writeRun count k).received ((base + count) % seqLen) =
        r.received ((base + count) % seqLen) := by
  induction count generalizing base k r with
  | zero => exact ⟨h, rfl⟩
  | succ count ih =>
    have ready : r.received (base % seqLen) = true := run 0 (by omega)
    -- writing the head clears its own flag only
    have kept : ∀ j, 0 < j → j < seqLen → (r.writeHead k).received ((base + j) % seqLen) =
        r.received ((base + j) % seqLen) := by
      intro j positive hj
      simp only [Receiver.writeHead, slot]
      rw [Function.update_of_ne]
      dsimp only [seqLen] at *
      omega
    have next : ((r.writeHead k).laSeq + (k + 1)) % seqLen = (base + 1) % seqLen := by
      change (r.laSeq + (k + 1)) % seqLen = _
      dsimp only [seqLen] at *
      omega
    obtain ⟨loaded, same⟩ := ih (h.writeHead slot ready) next (by omega) (fun j hj => by
      rw [show base + 1 + j = base + (j + 1) by omega, kept (j + 1) (by omega) (by
        dsimp only [windowLen, seqLen] at *; omega)]
      exact run (j + 1) (by omega))
    rw [show base + (count + 1) = base + 1 + count by omega]
    refine ⟨loaded, same.trans ?_⟩
    rw [show base + 1 + count = base + (count + 1) by omega]
    exact kept _ (by omega) (by dsimp only [windowLen, seqLen] at *; omega)

/-! ### Handling a frame -/

/-- Buffering a frame of the window fills its slot with its chunk. -/
theorem Loaded.buffer (h : Loaded file base sent r) (laSeq : r.laSeq = base % seqLen) {i : ℕ}
    (inside : i < windowLen) (isSent : base + i < sent) (small : base + i + 1 < 2 ^ 32)
    (last : base + i = file.lastChunk → r.readyExit ≠ 0) :
    Loaded file base sent (r.buffer (file.frame (base + i))) := by
  have hi : i < seqLen := lt_trans inside (by decide)
  -- the chunk goes to the node as far from the head as its slot is from the base
  have position : mapToWindow r.laSeq (file.frame (base + i)).seqNum = i := by
    rw [laSeq]
    exact (mapToWindow_mod (by omega) (by omega)).trans (by omega)
  obtain ⟨node, hnode⟩ : ∃ node, r.root[i]? = some node :=
    ⟨_, List.getElem?_eq_getElem (by rw [h.length]; exact inside)⟩
  have root : (r.buffer (file.frame (base + i))).root =
      r.root.set i (node.fill (file.chunk (base + i))) := by
    simp only [Receiver.buffer, position, storeAt, getK_eq, hnode]
    rfl
  have marks : ∀ j < seqLen, (r.buffer (file.frame (base + i))).received ((base + j) % seqLen) =
      if j = i then true else r.received ((base + j) % seqLen) := by
    intro j hj
    simp only [Receiver.buffer, RegularFile.frame, Function.update_apply,
      Sender.slot_eq_iff hj hi]
  refine ⟨h.lastId, h.small, h.behind, h.written, ?_, ?_, ?_, ?_, ?_⟩
  · rw [root, List.length_set, h.length]
  · intro j hj marked
    rw [marks j hj] at marked
    split_ifs at marked with here
    · exact here ▸ inside
    · exact h.inside j hj marked
  · intro j hj marked
    rw [marks j (lt_trans hj (by decide))] at marked
    split_ifs at marked with here
    · exact here ▸ ⟨isSent, small⟩
    · exact h.created j hj marked
  · intro j hj marked
    rw [marks j (lt_trans hj (by decide))] at marked
    rw [root, List.getElem?_set]
    split_ifs at marked with here
    · subst here
      simp [h.length, hj]
    · rw [if_neg (Ne.symm here)]
      exact h.stored j hj marked
  · intro j hj marked
    rw [marks j (lt_trans hj (by decide))] at marked
    split_ifs at marked with here
    · exact here ▸ last
    · exact h.announced j hj marked

/-- The exit test and the advance of the window leave the buffers alone. -/
theorem Loaded.advance (h : Loaded file base sent r) (m : ℕ) :
    Loaded file base sent (r.advance m) :=
  { h with
    announced := fun j hj marked last => by
      have known := h.announced j hj marked last
      simp only [Receiver.advance]
      split_ifs
      · decide
      · exact known }

/-- `frame` is the first missing chunk, and the chunks behind it are buffered up to
the last one of the file. -/
structure CompletesFile (file : RegularFile) (r : Receiver) (frame : Frame) : Prop where
  type : frame.type = 2 ∨ frame.type = 4
  fresh : r.lastId < frame.packetId
  first : frame.seqNum = r.laSeq
  buffered : ∀ k, r.lastId < k → k ≤ file.lastChunk → r.received (k % seqLen) = true

/-- What handling a frame did: `m` chunks were written, and if the last chunk was
among them, the exit test succeeded exactly when the release did not wrap. -/
structure FrameResult (file : RegularFile) (base sent m : ℕ) (t : Receiver) : Prop where
  bound : m ≤ windowLen
  buffering : Buffering file (base + m) sent t
  exit : base ≤ file.lastChunk → base + m = file.lastChunk + 1 →
    (t.readyExit = 2 ↔ base % seqLen ≤ file.lastChunk % seqLen)

/-- Before the last chunk is written, the exit test after releasing `m` slots tells
whether the release ended at the last chunk without wrapping. -/
theorem Buffering.exit_test (h : Buffering file base sent r) {m : ℕ} (hm : m ≤ windowLen)
    (unfinished : base ≤ file.lastChunk) (window : sent ≤ base + windowLen)
    (known : r.readyExit ≠ 0) :
    r.lastWindow = (r.laSeq : ℤ) + m - 1 ↔
      base + m = file.lastChunk + 1 ∧ base % seqLen ≤ file.lastChunk % seqLen := by
  obtain ⟨isSent, lastWindow⟩ := h.known known
  -- `last_window` is reduced and the sum beside it is not
  rw [lastWindow, h.laSeq]
  dsimp only [seqLen, windowLen] at *
  omega

/-- The run counted after buffering a frame: its slots are marked and the slot
behind it is not. -/
theorem Buffering.countRun (h : Buffering file base sent r) {i : ℕ} (inside : i < windowLen)
    (loaded : Loaded file base sent (r.buffer (file.frame (base + i)))) :
    let b := r.buffer (file.frame (base + i))
    ∃ m ≤ windowLen, b.countRun (file.frame (base + i)).seqNum = m ∧
      (∀ j < m, b.received ((base + j) % seqLen) = true) ∧
      b.received ((base + m) % seqLen) = false ∧ (m = 0 ∨ i = 0) := by
  intro b
  have laSeq : b.laSeq = base % seqLen := h.laSeq
  -- only the frame at `la_seq` starts a run
  by_cases first : i = 0
  · subst first
    obtain ⟨bound, marked, stop⟩ := runLength_spec b.received b.laSeq windowLen
    have slot : ∀ j, (b.laSeq + j) % seqLen = (base + j) % seqLen := fun j => by
      rw [laSeq, Nat.mod_add_mod]
    refine ⟨_, bound, if_neg (not_not.mpr laSeq.symm), fun j hj => ?_, ?_, .inr rfl⟩
    · rw [← slot]
      exact marked j hj
    · rcases Nat.lt_or_ge (runLength b.received b.laSeq windowLen) windowLen with less | full
      · rw [← slot]
        exact stop less
      · rw [le_antisymm bound full]
        -- a run of a whole window stops there, as no slot outside is marked
        by_contra set
        exact lt_irrefl _ (loaded.inside windowLen (by decide) (by simpa [b] using set))
  · have other : base % seqLen ≠ (base + i) % seqLen := by
      dsimp only [windowLen, seqLen] at *
      omega
    refine ⟨0, Nat.zero_le _, if_pos (laSeq ▸ other.symm), by simp, ?_, .inl rfl⟩
    exact (Function.update_of_ne other _ _).trans h.waiting

/-- The counted run ends behind the last chunk exactly when the buffered frame was
the first missing one and all behind it were there. -/
theorem Loaded.countRun_completes {i m : ℕ}
    (loaded : Loaded file base sent (r.buffer (file.frame (base + i)))) (inside : i < windowLen)
    (hm : m ≤ windowLen)
    (run : ∀ j < m, (r.buffer (file.frame (base + i))).received ((base + j) % seqLen) = true)
    (next : (r.buffer (file.frame (base + i))).received ((base + m) % seqLen) = false)
    (first : m = 0 ∨ i = 0) (complete : sent ≤ file.lastChunk + 1)
    (unfinished : base ≤ file.lastChunk) :
    base + m = file.lastChunk + 1 ↔
      i = 0 ∧ ∀ k, base < k → k ≤ file.lastChunk → r.received (k % seqLen) = true := by
  have marks : ∀ k, (r.buffer (file.frame (base + i))).received (k % seqLen) =
      if k % seqLen = (base + i) % seqLen then true else r.received (k % seqLen) := fun k => by
    simp only [Receiver.buffer, RegularFile.frame, Function.update_apply]
  dsimp only [windowLen] at hm inside
  constructor
  · intro whole
    have zero : i = 0 := first.resolve_left (by omega)
    refine ⟨zero, fun k above last => ?_⟩
    have marked := run (k - base) (by omega)
    rw [show base + (k - base) = k by omega, marks, if_neg (by dsimp only [seqLen]; omega)] at marked
    exact marked
  · rintro ⟨rfl, buffered⟩
    -- a shorter run would have met a gap, a longer one a chunk behind the end of the file
    rcases lt_trichotomy (base + m) (file.lastChunk + 1) with short | whole | long
    · rw [marks] at next
      split_ifs at next with here
      have positive : m ≠ 0 := fun zero => here (by rw [zero])
      rw [buffered (base + m) (by omega) (by omega)] at next
      cases next
    · exact whole
    · have marked := run (file.lastChunk + 1 - base) (by omega)
      have := (loaded.created _ (by dsimp only [windowLen]; omega) marked).1
      omega

/-- Accepting a frame of the window. -/
theorem Buffering.accept (h : Buffering file base sent r) {i : ℕ} (inside : i < windowLen)
    (isSent : base + i < sent) (small : base + i + 1 < 2 ^ 32)
    (window : sent ≤ base + windowLen) (complete : sent ≤ file.lastChunk + 1)
    (last : base + i = file.lastChunk → r.readyExit ≠ 0) :
    ∃ m, FrameResult file base sent m (r.accept (file.frame (base + i))) ∧
      (base + m = file.lastChunk + 1 ↔
        i = 0 ∧ ∀ k, base < k → k ≤ file.lastChunk → r.received (k % seqLen) = true) := by
  have unfinished : base ≤ file.lastChunk := by omega
  have loaded := h.toLoaded.buffer h.laSeq inside isSent small last
  obtain ⟨m, hm, count, run, next, first⟩ := h.countRun inside loaded
  have start : ((r.buffer (file.frame (base + i))).laSeq + 0) % seqLen = base % seqLen := by
    rw [Nat.add_zero, show (r.buffer (file.frame (base + i))).laSeq = base % seqLen from h.laSeq,
      Nat.mod_mod]
  obtain ⟨moved, kept⟩ := loaded.writeRun start hm run
  obtain ⟨laSeq, readyExit, lastWindow⟩ := writeRun_frame m 0 (r.buffer (file.frame (base + i)))
  have accepted : r.accept (file.frame (base + i)) =
      ((r.buffer (file.frame (base + i))).writeRun m 0).advance m := by
    simp only [Receiver.accept, count]
  have exits : (r.accept (file.frame (base + i))).readyExit =
      if r.readyExit ≠ 0 ∧ r.lastWindow = (r.laSeq : ℤ) + m - 1 then 2 else r.readyExit := by
    rw [accepted]
    simp only [Receiver.advance, laSeq, readyExit, lastWindow]
    rfl
  have test := fun known => h.exit_test hm unfinished window known
  have before := h.pending unfinished
  refine ⟨m, ⟨hm, ⟨accepted ▸ moved.advance m, ⟨fun known => ?_⟩, ?_, ?_, fun more => ?_⟩,
    fun _ finished => ?_⟩,
    loaded.countRun_completes inside hm run next first complete unfinished⟩
  · have old : r.readyExit ≠ 0 := by
      rw [exits] at known
      split_ifs at known with passed
      · exact passed.1
      · exact known
    rw [accepted]
    exact lastWindow ▸ h.known old
  · rw [accepted]
    simp only [Receiver.advance, laSeq]
    rw [show (r.buffer (file.frame (base + i))).laSeq = base % seqLen from h.laSeq, Nat.mod_add_mod]
  · rw [accepted]
    exact kept.trans next
  · rw [exits]
    split_ifs with passed
    · have := ((test passed.1).mp passed.2).1
      omega
    · exact before
  · -- the last chunk was marked, so its type 4 frame has been seen
    have known : r.readyExit ≠ 0 := by
      have offset : base + (file.lastChunk - base) = file.lastChunk := by omega
      have marked := run (file.lastChunk - base) (by omega)
      exact loaded.announced (file.lastChunk - base) (by omega) marked offset
    rw [exits]
    split_ifs with passed
    · exact iff_of_true rfl ((test known).mp passed.2).2
    · refine iff_of_false before fun noWrap => passed ⟨known, (test known).mpr ⟨finished, noWrap⟩⟩

/-- Announcing the last chunk changes nothing else. -/
theorem Buffering.announce (h : Buffering file base sent r) {j : ℕ} (isSent : j < sent)
    (complete : sent ≤ file.lastChunk + 1) :
    Buffering file base sent (r.announce (file.frame j)) ∧
      (r.announce (file.frame j)).received = r.received ∧
      (j = file.lastChunk → (r.announce (file.frame j)).readyExit ≠ 0) := by
  unfold Receiver.announce
  split_ifs with last
  · have final : j = file.lastChunk := by
      simp only [RegularFile.frame, RegularFile.frameType] at last
      split_ifs at last <;> omega
    refine ⟨{ h with
      announced := fun _ _ _ _ => one_ne_zero
      known := fun _ => ⟨by omega, by rw [← final]; rfl⟩
      pending := fun _ => (by decide : (1 : ℕ) ≠ 2) }, rfl, fun _ => one_ne_zero⟩
  · refine ⟨h, rfl, fun final => absurd ?_ last⟩
    simp [RegularFile.frame, RegularFile.frameType, final]

/-- A frame of a created chunk that passes the packet id test is of a chunk still
to be written, also when packet ids have wrapped. -/
theorem Buffering.fresh (h : Buffering file base sent r) {j : ℕ} (isSent : j < sent)
    (window : sent ≤ base + windowLen) (newer : r.lastId < (file.frame j).packetId) :
    base ≤ j ∧ j + 1 < 2 ^ 32 := by
  have small := h.small
  simp only [RegularFile.frame, h.lastId] at newer
  dsimp only [windowLen] at window
  omega

/-- Handling a frame of one of the chunks the sender has created. -/
theorem Buffering.handleFrame (h : Buffering file base sent r) {j : ℕ} (isSent : j < sent)
    (window : sent ≤ base + windowLen) (complete : sent ≤ file.lastChunk + 1) :
    ∃ m, FrameResult file base sent m (r.handleFrame (file.frame j)) ∧
      (base ≤ file.lastChunk →
        (base + m = file.lastChunk + 1 ↔ CompletesFile file r (file.frame j))) := by
  -- a frame that is not accepted writes nothing
  have ignored : ∀ t, Buffering file base sent t → ¬ CompletesFile file r (file.frame j) →
      ∃ m, FrameResult file base sent m t ∧ (base ≤ file.lastChunk →
        (base + m = file.lastChunk + 1 ↔ CompletesFile file r (file.frame j))) :=
    fun t ht not => ⟨0, ⟨Nat.zero_le _, ht, fun _ _ => by omega⟩,
      fun _ => iff_of_false (by omega) not⟩
  unfold Receiver.handleFrame
  by_cases valid : ((file.frame j).type = 2 ∨ (file.frame j).type = 4) ∧
      r.lastId < (file.frame j).packetId
  · rw [if_pos valid]
    obtain ⟨unwritten, small⟩ := h.fresh isSent window valid.2
    obtain ⟨announced, received, last⟩ := h.announce isSent complete
    obtain ⟨i, rfl⟩ := Nat.exists_eq_add_of_le unwritten
    by_cases open_slot : between (r.announce (file.frame (base + i))).laSeq
        (((r.announce (file.frame (base + i))).laSeq + windowLen - 1) % seqLen)
        (file.frame (base + i)).seqNum ∧
      (r.announce (file.frame (base + i))).received (file.frame (base + i)).seqNum = false
    · simp only [if_pos open_slot]
      obtain ⟨m, result, completes⟩ :=
        announced.accept (by omega) isSent small window complete last
      refine ⟨m, result, fun _ => completes.trans ⟨fun ⟨zero, buffered⟩ => ?_, fun whole => ?_⟩⟩
      · refine ⟨valid.1, valid.2, ?_, fun k above => ?_⟩
        · rw [h.laSeq, zero]
          rfl
        · rw [h.lastId] at above
          exact received ▸ buffered k above
      · refine ⟨?_, fun k above => ?_⟩
        · have same := whole.first
          rw [h.laSeq] at same
          dsimp only [RegularFile.frame, seqLen, windowLen] at *
          omega
        · rw [received]
          exact whole.buffered k (by rwa [h.lastId])
    · simp only [if_neg open_slot]
      -- the frame that completes the file is never turned away: its slot is the first of the window
      refine ignored _ announced fun whole => open_slot ⟨?_, ?_⟩
      · rw [whole.first, announced.laSeq, h.laSeq]
        unfold between
        dsimp only [seqLen, windowLen]
        split_ifs <;> simp only [decide_eq_true_eq] <;> omega
      · rw [whole.first, received, h.laSeq]
        exact h.waiting
  · rw [if_neg valid]
    exact ignored _ h fun whole => valid ⟨whole.type, whole.fresh⟩

end Receiver

end ComputerNetworks.Transfer
