import ComputerNetworks.Transfer.Sockets

/-!
# Datagrams that arrive

Every datagram of either program consists of a checksum and the bytes it covers. Delivered
with detectable errors it fails the test, delivered without errors it is decoded to what
was sent. So each of the two programs handles what it receives as it handles the frame or
the ack that is in it, or as it handles nothing.
-/

namespace ComputerNetworks.Transfer

open Lib

/-! ### Sealed datagrams -/

/-- The covered bytes behind their checksum. -/
def sealed (covered : List UInt8) : List UInt8 :=
  htons (check crc16 (bitsOf covered)).reverse ++ covered

@[simp] theorem length_sealed (covered : List UInt8) :
    (sealed covered).length = covered.length + 2 := by
  simp [sealed]
  omega

theorem crcTest_sealed {covered : List UInt8} (short : covered.length ≤ 65535)
    (memory : ℕ → UInt8) :
    crcTest (overlay (sealed covered) memory) (sealed covered).length = true := by
  rw [length_sealed, sealed, crcTest_overlay _ _ _ short]

theorem corrupt_zeros (bytes : List UInt8) :
    corrupt bytes (List.replicate bytes.length 0) = bytes := by
  unfold corrupt
  induction bytes with
  | nil => rfl
  | cons byte bytes ih =>
    rw [List.length_cons, List.replicate_succ, List.zipWith_cons_cons, ih, UInt8.xor_zero]

@[simp] theorem length_corrupt {frame error : List UInt8} (same : error.length = frame.length) :
    (corrupt frame error).length = frame.length := by
  simp [corrupt, same]

/-- Errors are shown by the checksum exactly when they fail the test alone. -/
theorem crcTest_corrupt_sealed {covered error : List UInt8} (short : covered.length ≤ 65535)
    (same : error.length = (sealed covered).length) (memory : ℕ → UInt8) :
    crcTest (overlay (corrupt (sealed covered) error) memory) (sealed covered).length =
      crcTest (overlay error fun _ => 0) error.length := by
  have two : 2 ≤ error.length := by
    rw [same, length_sealed]
    omega
  -- the error changes the checksum by `flip` and the covered bytes by `flips`
  obtain ⟨flip, flips, rfl⟩ := exists_htons two
  have same' : covered.length = flips.length := by
    rw [length_sealed, List.length_append, length_htons] at same
    omega
  have passes := crcTest_sealed short fun _ => 0
  have length : (htons flip ++ flips).length = flips.length + 2 := by simp; omega
  rw [length_sealed, sealed] at passes
  rw [Bool.eq_iff_iff, length_sealed, sealed, crcTest_corrupt same' short memory passes, length,
    crcTest_overlay _ _ _ (same' ▸ short)]
  -- both sides ask whether `flip` is the check of `flips`, with its bits reversed
  constructor
  · intro undetected
    rw [undetected, BitVec.reverse_reverse_eq]
  · intro undetected
    rw [undetected, BitVec.reverse_reverse_eq]

/-! ### Frames and acks on the wire -/

/-- The fields of a frame fit their places, and its payload fits where it is copied. -/
structure Frame.Fits (frame : Frame) : Prop where
  seqNum : frame.seqNum < seqLen
  type : frame.type < 2 ^ 16
  packetId : frame.packetId < 2 ^ 32
  payload : frame.payload.length ≤ bufLen

theorem Frame.Fits.encode_eq {frame : Frame} (fits : frame.Fits) (memory : ℕ → UInt8) :
    frame.encode memory = sealed frame.body := by
  have payload := fits.payload
  dsimp only [bufLen] at payload
  exact Frame.encode_eq frame memory (by omega)

/-- The fields of an ack fit their places. -/
structure Ack.Fits (ack : Ack) : Prop where
  ackNum : ack.ackNum < 2 ^ 16
  type : ack.type < 2 ^ 16
  tvSec : ack.tvSec < 2 ^ 32
  tvUsec : ack.tvUsec < 2 ^ 32

theorem Ack.stamp_fits {ackNum : ℕ} (inside : ackNum < seqLen) (tv : Timeval) :
    (stamp ackNum tv).Fits := by
  dsimp only [seqLen] at inside
  refine ⟨inside.trans (by omega), ?_, Nat.mod_lt _ (by omega), Nat.mod_lt _ (by omega)⟩
  dsimp only [stamp]
  omega

namespace Ack

variable (ack : Ack) (memory stale : ℕ → UInt8)

@[simp] theorem length_body : ack.body.length = 14 := by simp [body]

/-- The acks under way are short enough for the length of a checked block. -/
theorem short_of_mem {acks : List Ack} {c : List UInt8} (member : c ∈ acks.map body) :
    c.length ≤ 65535 := by
  obtain ⟨ack, -, rfl⟩ := List.mem_map.mp member
  rw [length_body]
  omega

theorem encode_eq : ack.encode memory = sealed ack.body := by
  have size : (14 : BitVec 16).toNat = ack.body.length := by
    rw [length_body]
    rfl
  rw [encode, calcCrc16_eq, size, block_overlay, sealed]

/-- `sendfile` reads the fields that `recvfile` has written. -/
theorem decode_sealed (fits : ack.Fits) : decode (overlay (sealed ack.body) stale) = ack := by
  have ackNum : ntohs (overlay (sealed ack.body) stale) 4 = BitVec.ofNat 16 ack.ackNum := by
    simp only [sealed, body, ← List.append_assoc (htons _)]
    rw [List.append_assoc, List.append_assoc, List.append_assoc]
    exact ntohs_htons (htons _ ++ htons _) _ _ _
  have type : ntohs (overlay (sealed ack.body) stale) 6 = BitVec.ofNat 16 ack.type := by
    simp only [sealed, body, ← List.append_assoc (htons _)]
    rw [List.append_assoc, List.append_assoc]
    exact ntohs_htons (htons _ ++ htons _ ++ htons _) _ _ _
  have tvSec : ntohl (overlay (sealed ack.body) stale) 8 = BitVec.ofNat 32 ack.tvSec := by
    simp only [sealed, body, ← List.append_assoc]
    rw [List.append_assoc]
    exact ntohl_htonl (htons _ ++ htons _ ++ htons _ ++ htons _) _ _ _
  have tvUsec : ntohl (overlay (sealed ack.body) stale) 12 = BitVec.ofNat 32 ack.tvUsec := by
    have last := ntohl_htonl (htons (check crc16 (bitsOf ack.body)).reverse ++ htons 0 ++
      htons (BitVec.ofNat 16 ack.ackNum) ++ htons (BitVec.ofNat 16 ack.type) ++
      htonl (BitVec.ofNat 32 ack.tvSec)) [] (BitVec.ofNat 32 ack.tvUsec) stale
    simpa [sealed, body, List.append_assoc] using last
  unfold decode
  rw [ackNum, type, tvSec, tvUsec]
  simp only [BitVec.toNat_ofNat, Nat.mod_eq_of_lt fits.ackNum, Nat.mod_eq_of_lt fits.type,
    Nat.mod_eq_of_lt fits.tvSec, Nat.mod_eq_of_lt fits.tvUsec]

end Ack

/-! ### Arrivals -/

/-- What a poll returns while the items are under way and the system of frames and acks picks
`k`: nothing, the item at `k`, or bytes that fail the test. -/
inductive Arrives (items : List (List UInt8)) : Option ℕ → Option (List UInt8) → Prop
  | nothing : Arrives items none none
  | whole {k : ℕ} {bytes : List UInt8} (item : items[k]? = some bytes) :
      Arrives items (some k) (some bytes)
  | damaged {bytes item : List UInt8} (member : item ∈ items) (same : bytes.length = item.length)
      (fails : ∀ memory, crcTest (overlay bytes memory) bytes.length = false) :
      Arrives items none (some bytes)

/-- A delivery with errors that the checksum shows. -/
theorem Delivery.damaged {covered : List (List UInt8)} (short : ∀ c ∈ covered, c.length ≤ 65535)
    {item error : List UInt8} (member : item ∈ covered.map sealed)
    (same : error.length = item.length)
    (seen : crcTest (overlay error fun _ => 0) error.length = false) :
    Arrives (covered.map sealed) none (some (corrupt item error)) := by
  refine .damaged member (length_corrupt same) fun memory => ?_
  obtain ⟨c, listed, rfl⟩ := List.mem_map.mp member
  rw [length_corrupt same, crcTest_corrupt_sealed (short c listed) same]
  exact seen

/-- A delivery with detectable errors, if any. -/
theorem Delivery.arrives {covered : List (List UInt8)} (short : ∀ c ∈ covered, c.length ≤ 65535)
    {recv : Option Delivery} {datagram : Option (List UInt8)}
    (picked : Delivery.pick (covered.map sealed) recv = some datagram)
    (detectable : ∀ delivery, recv = some delivery → delivery.Detectable) :
    ∃ k, Arrives (covered.map sealed) k datagram := by
  cases recv with
  | none =>
    cases picked
    exact ⟨none, .nothing⟩
  | some delivery =>
    simp only [Delivery.pick, Option.bind_eq_some_iff, Option.ite_none_right_eq_some,
      Option.some.injEq] at picked
    obtain ⟨item, found, same, rfl⟩ := picked
    rcases detectable delivery rfl with clean | seen
    · rw [clean, same, corrupt_zeros]
      exact ⟨some delivery.position, .whole found⟩
    · exact ⟨none, Delivery.damaged short (List.mem_of_getElem? found) same seen⟩

/-- An item that is delivered without errors. -/
theorem Delivery.intact {items : List (List UInt8)} {j : ℕ} (inside : j < items.length) :
    ∃ delivery bytes, Delivery.pick items (some delivery) = some (some bytes) ∧
      Arrives items (some j) (some bytes) ∧ delivery.Detectable := by
  have item := List.getElem?_eq_getElem inside
  refine ⟨⟨j, List.replicate items[j].length 0⟩, items[j], ?_, .whole item, .inl ?_⟩
  · rw [Delivery.pick, item, Option.bind_some, if_pos List.length_replicate, corrupt_zeros]
  · rw [List.length_replicate]

/-- What a poll picks is delivered without errors, if it is anything. -/
theorem Delivery.intact_pick {α : Type*} {sent : List α} {x : Option α} {k : Option ℕ}
    {items : List (List UInt8)} (same : items.length = sent.length)
    (picked : Transfer.pick sent k = some x) :
    ∃ recv datagram, Delivery.pick items recv = some datagram ∧ Arrives items k datagram ∧
      ∀ delivery, recv = some delivery → delivery.Detectable := by
  cases k with
  | none =>
    refine ⟨none, none, rfl, .nothing, fun delivery bad => ?_⟩
    cases bad
  | some j =>
    simp only [Transfer.pick, Option.map_eq_some_iff] at picked
    obtain ⟨y, found, -⟩ := picked
    have inside := (List.getElem?_eq_some_iff.mp found).1
    obtain ⟨delivery, bytes, polled, arrives, detectable⟩ := Delivery.intact (same ▸ inside)
    refine ⟨some delivery, some bytes, polled, arrives, fun other eq => ?_⟩
    cases eq
    exact detectable

/-- `sendfile` looks at the ack that is picked, and at nothing when the bytes fail the test. -/
theorem SendSession.receive_of_arrives {s : SendSession} {acks : List Ack}
    (fits : ∀ ack ∈ acks, ack.Fits) {k : Option ℕ} {datagram : Option (List UInt8)}
    (arrives : Arrives ((acks.map Ack.body).map sealed) k datagram) :
    ∃ buf ack, s.receive datagram = ({ s with buf := buf }, ack) ∧ pick acks k = some ack := by
  -- every ack makes a datagram of 16 bytes
  have sixteen : ∀ item ∈ (acks.map Ack.body).map sealed, item.length = 16 := by
    intro item member
    simp only [List.map_map, List.mem_map, Function.comp_apply] at member
    obtain ⟨ack, -, rfl⟩ := member
    rw [length_sealed, Ack.length_body]
  -- these fit the buffer and are long enough for the test, so only the test decides
  have received : ∀ bytes : List UInt8, bytes.length = 16 →
      s.receive (some bytes) = ({ s with buf := overlay bytes s.buf },
        if crcTest (overlay bytes s.buf) bytes.length then
          some (Ack.decode (overlay bytes s.buf)) else none) := by
    intro bytes length
    have taken : bytes.take bufLen = bytes := by
      apply List.take_of_length_le
      rw [length]
      decide
    have inside : ¬ bufLen < 2 + Session.crcLen bytes.length := by
      rw [length]
      decide
    simp only [receive, Option.getD_some, taken, if_neg inside]
    rw [if_neg (by omega)]
  cases arrives with
  | nothing => exact ⟨s.buf, none, rfl, rfl⟩
  | @whole k bytes item =>
    have length := sixteen bytes (List.mem_of_getElem? item)
    simp only [List.map_map, List.getElem?_map, Option.map_eq_some_iff, Function.comp_apply] at item
    obtain ⟨ack, found, rfl⟩ := item
    refine ⟨overlay (sealed ack.body) s.buf, some ack, ?_, by rw [pick, found, Option.map_some]⟩
    rw [received _ length, crcTest_sealed (by rw [Ack.length_body]; omega), if_pos rfl,
      Ack.decode_sealed ack _ (fits ack (List.mem_of_getElem? found))]
  | @damaged bytes item member same fails =>
    refine ⟨overlay bytes s.buf, none, ?_, rfl⟩
    rw [received _ (same.trans (sixteen item member)), fails, if_neg (by decide)]

/-! ### The receiver -/

namespace Session

variable {s : Session} {frames : List Frame} {k : Option ℕ} {datagram : Option (List UInt8)}
  (beyond : ℕ → Bool) (tv : Timeval)

/-- A poll that returns nothing leaves everything to the end of the iteration. -/
theorem step_nothing (running : s.fault = false) (phase : s.recv.phase = .data) :
    s.step ⟨none, beyond, tv⟩ = some ⟨s.buf, (s.recv.iteration none tv).1, false⟩ := by
  obtain ⟨buf, recv, fault⟩ := s
  dsimp only at running phase
  simp only [step, running, phase, Bool.false_eq_true, if_false, recvlen, stored,
    Option.getD_none, List.take_nil, List.length_nil, Nat.lt_irrefl]
  rfl

/-- In the main loop, what arrives is handled as the frame that is picked. -/
theorem step_of_arrives (fits : ∀ frame ∈ frames, frame.Fits) (running : s.fault = false)
    (phase : s.recv.phase = .data) (arrives : Arrives ((frames.map Frame.body).map sealed) k datagram) :
    ∃ buf frame, pick frames k = some frame ∧
      s.step ⟨datagram, beyond, tv⟩ = some ⟨buf, (s.recv.iteration frame tv).1, false⟩ := by
  cases arrives with
  | nothing => exact ⟨s.buf, none, rfl, step_nothing beyond tv running phase⟩
  | @whole k bytes item =>
    simp only [List.map_map, List.getElem?_map, Option.map_eq_some_iff, Function.comp_apply] at item
    obtain ⟨frame, found, rfl⟩ := item
    have fit := fits frame (List.mem_of_getElem? found)
    refine ⟨overlay (frame.encode fun _ => 0) s.buf, some frame,
      by rw [pick, found, Option.map_some], ?_⟩
    rw [← fit.encode_eq fun _ => 0]
    exact step_data running phase rfl fit.seqNum fit.type fit.packetId
      (fit.payload.trans (Nat.le_add_right _ _))
  | @damaged bytes item member same fails =>
    simp only [List.map_map, List.mem_map, Function.comp_apply] at member
    obtain ⟨frame, sent, rfl⟩ := member
    have payload := (fits frame sent).payload
    -- an error keeps the length, and so what is stored
    rw [length_sealed, Frame.length_body] at same
    dsimp only [bufLen] at payload
    refine ⟨overlay bytes s.buf, none, rfl, step_failed running phase rfl (by omega) ?_ (fails s.buf)⟩
    dsimp only [bufLen]
    omega

/-- A datagram that fails the test is not taken as the file name. -/
theorem step_unnamed {bytes : List UInt8} (running : s.fault = false)
    (phase : s.recv.phase = .naming) (two : 2 ≤ bytes.length) (short : bytes.length ≤ bufLen)
    (fails : crcTest (overlay bytes s.buf) bytes.length = false) :
    s.step ⟨some bytes, beyond, tv⟩ = some ⟨overlay bytes s.buf, s.recv, false⟩ := by
  have stored : s.stored ⟨some bytes, beyond, tv⟩ = bytes := by
    rw [Session.stored, Option.getD_some, request, if_pos phase]
    exact List.take_of_length_le short
  have recvlen : s.recvlen ⟨some bytes, beyond, tv⟩ = bytes.length := by rw [Session.recvlen, stored]
  have filled : s.filled ⟨some bytes, beyond, tv⟩ = overlay bytes s.buf := by
    rw [Session.filled, stored]
  have quiet := overread_eq_false two (short.trans (by omega))
  simp only [step, running, phase, Bool.false_eq_true, if_false, recvlen,
    show 0 < bytes.length by omega, if_true, nameDatagram, filled, quiet, fails]

/-- While the file name is awaited, a datagram is taken as the name that was sent, or not
at all. -/
theorem accept_of_arrives (fits : ∀ frame ∈ frames, frame.Fits)
    (short : ∀ frame ∈ frames, frame.payload.length ≤ nameLen) (running : s.fault = false)
    (phase : s.recv.phase = .naming) {bytes : List UInt8}
    (arrives : Arrives ((frames.map Frame.body).map sealed) k (some bytes)) :
    (∃ buf, ∃ j : ℕ, ∃ frame, k = some j ∧ frames[j]? = some frame ∧
        s.step ⟨some bytes, beyond, tv⟩ =
          some ⟨buf, (s.recv.nameIteration frame tv).1, false⟩) ∨
      ∃ buf, k = none ∧ s.step ⟨some bytes, beyond, tv⟩ = some ⟨buf, s.recv, false⟩ := by
  cases arrives with
  | @whole j bytes item =>
    simp only [List.map_map, List.getElem?_map, Option.map_eq_some_iff, Function.comp_apply] at item
    obtain ⟨frame, found, rfl⟩ := item
    have member := List.mem_of_getElem? found
    have fit := fits frame member
    have inside := fit.seqNum
    dsimp only [seqLen] at inside
    refine .inl ⟨overlay (frame.encode fun _ => 0) s.buf, j, frame, rfl, found, ?_⟩
    rw [← fit.encode_eq fun _ => 0]
    exact step_name running phase rfl (by omega) fit.type fit.packetId (short frame member)
  | @damaged bytes item member same fails =>
    simp only [List.map_map, List.mem_map, Function.comp_apply] at member
    obtain ⟨frame, sent, rfl⟩ := member
    have payload := short frame sent
    rw [length_sealed, Frame.length_body] at same
    dsimp only [nameLen] at payload
    refine .inr ⟨_, rfl, step_unnamed beyond tv running phase (by omega) ?_ (fails s.buf)⟩
    dsimp only [bufLen]
    omega

end Session

end ComputerNetworks.Transfer
