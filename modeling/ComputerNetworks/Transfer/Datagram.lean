import ComputerNetworks.Lib.Runs
import ComputerNetworks.Transfer.Crc16
import ComputerNetworks.Transfer.Receiver

/-!
# Datagrams

The bytes of a frame, and `recvfile` as it reads them: `recvfrom` writes a datagram over
what the buffer held before, cut off at the length asked for, and everything behind the
datagram is still there. A session that accesses memory outside the object it is meant
for has a fault, and nothing is said about what it does from then on.

For the datagrams that `sendfile` makes, a session does what the receiver does with
their frames.
-/

namespace ComputerNetworks.Transfer

open Lib

/-! ### Numbers in network byte order -/

/-- `htons` -/
def htons (x : BitVec 16) : List UInt8 := [⟨x.extractLsb' 8 8⟩, ⟨x.extractLsb' 0 8⟩]

/-- `htonl` -/
def htonl (x : BitVec 32) : List UInt8 := htons (x.extractLsb' 16 16) ++ htons (x.extractLsb' 0 16)

/-- `ntohs` of the two bytes at offset `i`. -/
def ntohs (buf : ℕ → UInt8) (i : ℕ) : BitVec 16 := (buf i).toBitVec ++ (buf (i + 1)).toBitVec

/-- `ntohl` of the four bytes at offset `i`. -/
def ntohl (buf : ℕ → UInt8) (i : ℕ) : BitVec 32 := ntohs buf i ++ ntohs buf (i + 2)

/-- The test that every received datagram has to pass. -/
def crcTest (buf : ℕ → UInt8) (recvlen : ℕ) : Bool :=
  ntohs buf 0 == calcCrc16 (fun i => buf (i + 2)) (BitVec.ofInt 16 (recvlen - 2))

/-! ### Frames -/

namespace Frame

/-- The bytes that the checksum covers. -/
def body (frame : Frame) : List UInt8 :=
  htons (BitVec.ofNat 16 frame.seqNum) ++ htons 0 ++ htons (BitVec.ofNat 16 frame.type) ++
    htonl (BitVec.ofNat 32 frame.packetId) ++ frame.payload

/-- The datagram that `sendfile` makes of a frame; `memory` is what its buffer holds
behind it. -/
def encode (frame : Frame) (memory : ℕ → UInt8) : List UInt8 :=
  htons (calcCrc16 (overlay frame.body memory) (BitVec.ofNat 16 (frame.payload.length + 6 + 4))) ++
    frame.body

/-- The header fields and the payload of a datagram of `recvlen` bytes. -/
def decode (buf : ℕ → UInt8) (recvlen : ℕ) : Frame where
  seqNum := (ntohs buf 2).toNat
  type := (ntohs buf 6).toNat
  packetId := (ntohl buf 8).toNat
  payload := block (fun i => buf (i + 12)) (recvlen - 8 - 4)

end Frame

/-! ### Round trips -/

theorem overlay_append (front back : List UInt8) (memory : ℕ → UInt8) :
    (fun i => overlay (front ++ back) memory (i + front.length)) =
      overlay back fun i => memory (i + front.length) := by
  funext i
  rw [overlay, List.getD_append_right _ _ _ _ (Nat.le_add_left _ _), Nat.add_sub_cancel]
  rfl

theorem extract_append {n : ℕ} (x : BitVec (n + n)) :
    x.extractLsb' n n ++ x.extractLsb' 0 n = x := by
  ext i hi
  rw [BitVec.getElem_append]
  split_ifs with low
  · simp [hi]
  · simp [show n + (i - n) = i by omega, hi]

@[simp] theorem length_htons (x : BitVec 16) : (htons x).length = 2 := rfl

@[simp] theorem length_htonl (x : BitVec 32) : (htonl x).length = 4 := rfl

theorem ntohs_htons (front back : List UInt8) (x : BitVec 16) (memory : ℕ → UInt8) :
    ntohs (overlay (front ++ (htons x ++ back)) memory) front.length = x := by
  have moved := overlay_append front (htons x ++ back) memory
  have first := congrFun moved 0
  have second := congrFun moved 1
  rw [Nat.zero_add] at first
  rw [Nat.add_comm] at second
  rw [ntohs, first, second]
  exact extract_append (n := 8) x

theorem ntohl_htonl (front back : List UInt8) (x : BitVec 32) (memory : ℕ → UInt8) :
    ntohl (overlay (front ++ (htonl x ++ back)) memory) front.length = x := by
  have high := ntohs_htons front (htons (x.extractLsb' 0 16) ++ back) (x.extractLsb' 16 16) memory
  have low := ntohs_htons (front ++ htons (x.extractLsb' 16 16)) back (x.extractLsb' 0 16) memory
  rw [List.append_assoc, List.length_append, length_htons] at low
  rw [ntohl, htonl, List.append_assoc, high, low]
  exact extract_append (n := 16) x

/-- The checksum of a datagram is computed over the bytes behind the checksum field. -/
theorem crcTest_overlay (sum : BitVec 16) (covered : List UInt8) (memory : ℕ → UInt8)
    (short : covered.length ≤ 65535) :
    crcTest (overlay (htons sum ++ covered) memory) (covered.length + 2) = true ↔
      sum = (check crc16 (bitsOf covered)).reverse := by
  have size : (BitVec.ofInt 16 (((covered.length + 2 : ℕ) : ℤ) - 2)).toNat = covered.length := by
    rw [show (((covered.length + 2 : ℕ) : ℤ) - 2) = ((covered.length : ℕ) : ℤ) by omega,
      BitVec.ofInt_natCast, BitVec.toNat_ofNat, Nat.mod_eq_of_lt (by omega)]
  have behind : (fun i => overlay (htons sum ++ covered) memory (i + 2)) =
      overlay covered fun i => memory (i + 2) := overlay_append (htons sum) covered memory
  rw [crcTest, show ntohs (overlay (htons sum ++ covered) memory) 0 = sum from
    ntohs_htons [] covered sum memory, beq_iff_eq, calcCrc16_eq, size, behind, block_overlay]

namespace Frame

variable (frame : Frame) (memory stale : ℕ → UInt8)

@[simp] theorem length_body : frame.body.length = frame.payload.length + 10 := by
  simp [body]
  omega

@[simp] theorem length_encode : (frame.encode memory).length = frame.payload.length + 12 := by
  simp [encode]
  omega

/-- The checksum covers the frame, and nothing that the buffer holds behind it. -/
theorem encode_eq (short : frame.payload.length ≤ 65525) :
    frame.encode memory = htons (check crc16 (bitsOf frame.body)).reverse ++ frame.body := by
  have size : (BitVec.ofNat 16 (frame.payload.length + 6 + 4)).toNat = frame.body.length := by
    rw [BitVec.toNat_ofNat, Nat.mod_eq_of_lt (by omega), length_body]
  rw [encode, calcCrc16_eq, size, block_overlay]

/-- A datagram that `sendfile` makes passes the test, whatever the buffer held before. -/
theorem crcTest_encode (short : frame.payload.length ≤ 65525) :
    crcTest (overlay (frame.encode memory) stale) (frame.encode memory).length = true := by
  rw [length_encode, show frame.payload.length + 12 = frame.body.length + 2 by simp,
    encode_eq _ _ short, crcTest_overlay _ _ _ (by rw [length_body]; omega)]

/-- `recvfile` reads the fields that `sendfile` has written. -/
theorem decode_encode (hseq : frame.seqNum < 2 ^ 16) (htype : frame.type < 2 ^ 16)
    (hid : frame.packetId < 2 ^ 32) :
    decode (overlay (frame.encode memory) stale) (frame.encode memory).length = frame := by
  have seqNum : ntohs (overlay (frame.encode memory) stale) 2 = BitVec.ofNat 16 frame.seqNum := by
    simp only [encode, body, List.append_assoc]
    exact ntohs_htons (htons _) _ _ _
  have type : ntohs (overlay (frame.encode memory) stale) 6 = BitVec.ofNat 16 frame.type := by
    simp only [encode, body, ← List.append_assoc (htons _)]
    rw [List.append_assoc, List.append_assoc]
    exact ntohs_htons (htons _ ++ htons _ ++ htons _) _ _ _
  have packetId : ntohl (overlay (frame.encode memory) stale) 8 =
      BitVec.ofNat 32 frame.packetId := by
    simp only [encode, body, ← List.append_assoc]
    rw [List.append_assoc]
    exact ntohl_htonl (htons _ ++ htons _ ++ htons _ ++ htons _) _ _ _
  have payload : block (fun i => overlay (frame.encode memory) stale (i + 12))
      ((frame.encode memory).length - 8 - 4) = frame.payload := by
    rw [length_encode, show frame.payload.length + 12 - 8 - 4 = frame.payload.length by omega]
    simp only [encode, body, ← List.append_assoc]
    rw [show (fun i => overlay _ stale (i + 12)) = _ from
      overlay_append (htons _ ++ htons _ ++ htons _ ++ htons _ ++ htonl _) frame.payload stale]
    exact block_overlay _ _
  unfold decode
  rw [seqNum, type, packetId, payload]
  simp only [BitVec.toNat_ofNat, Nat.mod_eq_of_lt hseq, Nat.mod_eq_of_lt htype,
    Nat.mod_eq_of_lt hid]

end Frame

/-! ### Sessions -/

/-- The size of `file_name`. -/
abbrev nameLen : ℕ := 1024

/-- The receiver, its receive buffer, and whether an access went outside its object. -/
structure Session where
  buf : ℕ → UInt8
  recv : Receiver
  fault : Bool

/-- A poll of the socket: the datagram waiting there, the bits read from behind the array
`received` if an index is too large, and the clock. -/
structure Poll where
  datagram : Option (List UInt8)
  beyond : ℕ → Bool
  now : Timeval

namespace Session

/-- Before the file name arrives; the buffer holds whatever was in its memory. -/
def start (memory : ℕ → UInt8) : Session := ⟨memory, .start, false⟩

/-- The length passed to `recvfrom`. -/
def request (s : Session) : ℕ := if s.recv.phase = .naming then bufLen else bufLen + 12 + 4

/-- The bytes that `recvfrom` stores. -/
def stored (p : Poll) (s : Session) : List UInt8 := (p.datagram.getD []).take s.request

/-- The buffer after `recvfrom`. -/
def filled (p : Poll) (s : Session) : ℕ → UInt8 := overlay (s.stored p) s.buf

/-- `recvlen`, when something was received. -/
def recvlen (p : Poll) (s : Session) : ℕ := (s.stored p).length

/-- `check_sum` is computed over this many bytes. -/
def crcLen (recvlen : ℕ) : ℕ := (BitVec.ofInt 16 (recvlen - 2)).toNat

/-- Whether the checksum is computed over bytes behind `buf`. -/
def overread (recvlen : ℕ) : Bool := decide (bufLen + 16 < 2 + crcLen recvlen)

/-- Whether `memcpy` of the bytes behind the header goes outside a block of `size` bytes; a
negative length is converted to a huge one. -/
def badCopy (recvlen size : ℕ) : Bool := decide (recvlen < 8 + 4 ∨ size < recvlen - 8 - 4)

/-- `received[seq_num]` -/
def isReceived (beyond : ℕ → Bool) (seqNum : ℕ) (r : Receiver) : Bool :=
  if seqNum < seqLen then r.received seqNum else beyond seqNum

/-- Whether a frame starts a new chunk of the file. -/
def isFresh (frame : Frame) (r : Receiver) : Bool :=
  decide ((frame.type = 2 ∨ frame.type = 4) ∧ r.lastId < frame.packetId)

/-- Whether a fresh frame is to be buffered. -/
def isOpen (beyond : ℕ → Bool) (frame : Frame) (r : Receiver) : Bool :=
  between r.laSeq ((r.laSeq + windowLen - 1) % seqLen) frame.seqNum &&
    !isReceived beyond frame.seqNum r

/-- The body of the loop that waits for the file name, after a datagram came. -/
def nameDatagram (p : Poll) (s : Session) : Session :=
  let buf := s.filled p
  let recvlen := s.recvlen p
  if overread recvlen then { s with fault := true }
  else if crcTest buf recvlen then
    if badCopy recvlen nameLen then { s with fault := true }
    else { s with buf := buf, recv := (s.recv.nameIteration (Frame.decode buf recvlen) p.now).1 }
  else { s with buf := buf }

/-- The main loop's treatment of a frame of `recvlen` bytes that passed the test. -/
def dataFrame (beyond : ℕ → Bool) (frame : Frame) (recvlen : ℕ) (s : Session) : Session :=
  if isFresh frame s.recv then
    let r := s.recv.announce frame
    if isOpen beyond frame r then
      if seqLen ≤ frame.seqNum ∨ badCopy recvlen (bufLen + 12 + 4) then { s with fault := true }
      else { s with recv := r.accept frame }
    else { s with recv := r }
  else s

/-- The main loop's treatment of a datagram. -/
def dataDatagram (p : Poll) (s : Session) : Session :=
  let buf := s.filled p
  let recvlen := s.recvlen p
  if overread recvlen then { s with fault := true }
  else if crcTest buf recvlen then
    dataFrame p.beyond (Frame.decode buf recvlen) recvlen { s with buf := buf }
  else { s with buf := buf }

/-- The end of an iteration of the main loop. -/
def finish (s : Session) : Session :=
  { s with recv := { s.recv with phase := if s.recv.readyExit = 2 then .tail 400 else .data } }

/-- A poll of the socket and what is done about its result. Nothing is received any more
once the main loop is left. -/
def step (s : Session) (p : Poll) : Option Session :=
  if s.fault then none
  else match s.recv.phase with
    | .naming => some (if 0 < s.recvlen p then s.nameDatagram p else s)
    | .data => some (finish (if 0 < s.recvlen p then s.dataDatagram p else s))
    | .tail _ => none

/-- The checksum is computed over the bytes behind its field, except that a datagram of
one byte makes its length negative. -/
theorem crcLen_eq {recvlen : ℕ} (more : 0 < recvlen) (short : recvlen ≤ 65537) :
    crcLen recvlen = if recvlen = 1 then 65535 else recvlen - 2 := by
  unfold crcLen
  split_ifs with single
  · rw [single]
    decide
  · rw [show ((recvlen : ℤ) - 2) = ((recvlen - 2 : ℕ) : ℤ) by omega, BitVec.ofInt_natCast,
      BitVec.toNat_ofNat, Nat.mod_eq_of_lt (by omega)]

theorem overread_eq_false {recvlen : ℕ} (two : 2 ≤ recvlen) (short : recvlen ≤ bufLen + 12 + 4) :
    overread recvlen = false := by
  dsimp only [bufLen] at short
  rw [overread, crcLen_eq (by omega) (by omega), if_neg (by omega), decide_eq_false]
  dsimp only [bufLen]
  omega

/-! ### Refinement -/

variable {s : Session} {p : Poll} {frame : Frame} {memory : ℕ → UInt8}

/-- A frame whose number and length are in range is handled as the receiver handles it. -/
theorem dataFrame_eq (beyond : ℕ → Bool) {recvlen : ℕ} (inside : frame.seqNum < seqLen)
    (copied : badCopy recvlen (bufLen + 12 + 4) = false) :
    dataFrame beyond frame recvlen s = { s with recv := s.recv.handleFrame frame } := by
  have slot : isReceived beyond frame.seqNum (s.recv.announce frame) =
      (s.recv.announce frame).received frame.seqNum := if_pos inside
  have passed : ¬ (seqLen ≤ frame.seqNum ∨ badCopy recvlen (bufLen + 12 + 4) = true) := by
    rw [copied, not_or]
    exact ⟨not_le.mpr inside, Bool.false_ne_true⟩
  unfold dataFrame Receiver.handleFrame
  simp only [isFresh, isOpen, slot, if_neg passed, decide_eq_true_eq, Bool.and_eq_true,
    Bool.not_eq_true']
  split_ifs <;> rfl

theorem request_le : s.request ≤ bufLen + 12 + 4 := by
  unfold request
  split_ifs
  · dsimp only [bufLen]
    omega
  · exact le_refl _

/-- A datagram of `sendfile` that fits the request is received in full, passes the test and
is decoded to its frame. -/
theorem received_encode (datagram : p.datagram = some (frame.encode memory))
    (short : frame.payload.length + 12 ≤ s.request) (hseq : frame.seqNum < 2 ^ 16)
    (htype : frame.type < 2 ^ 16) (hid : frame.packetId < 2 ^ 32) :
    s.recvlen p = frame.payload.length + 12 ∧ s.filled p = overlay (frame.encode memory) s.buf ∧
      overread (s.recvlen p) = false ∧ crcTest (s.filled p) (s.recvlen p) = true ∧
        Frame.decode (s.filled p) (s.recvlen p) = frame := by
  have length := frame.length_encode memory
  have stored : s.stored p = frame.encode memory := by
    rw [stored, datagram, Option.getD_some]
    apply List.take_of_length_le
    rw [length]
    exact short
  have recvlen : s.recvlen p = frame.payload.length + 12 := by
    rw [Session.recvlen, stored, length]
  have filled : s.filled p = overlay (frame.encode memory) s.buf := by rw [Session.filled, stored]
  have fits := short.trans s.request_le
  have passes := frame.crcTest_encode memory s.buf (by dsimp only [bufLen] at fits; omega)
  have decoded := frame.decode_encode memory s.buf hseq htype hid
  rw [length] at passes decoded
  rw [recvlen, filled]
  exact ⟨rfl, rfl, overread_eq_false (by omega) fits, passes, decoded⟩

theorem badCopy_eq_false {payload size : ℕ} (fits : payload ≤ size) :
    badCopy (payload + 12) size = false := by
  rw [badCopy, decide_eq_false]
  omega

/-- The first datagram of `sendfile` names the file, if it fits `file_name`. -/
theorem step_name (running : s.fault = false) (phase : s.recv.phase = .naming)
    (datagram : p.datagram = some (frame.encode memory)) (hseq : frame.seqNum < 2 ^ 16)
    (htype : frame.type < 2 ^ 16) (hid : frame.packetId < 2 ^ 32)
    (short : frame.payload.length ≤ nameLen) :
    s.step p = some ⟨overlay (frame.encode memory) s.buf,
      (s.recv.nameIteration frame p.now).1, false⟩ := by
  have fits : frame.payload.length + 12 ≤ s.request := by
    rw [request, if_pos phase]
    dsimp only [nameLen, bufLen] at short ⊢
    omega
  obtain ⟨recvlen, filled, quiet, passes, decoded⟩ := received_encode datagram fits hseq htype hid
  rw [recvlen, filled] at passes decoded
  rw [recvlen] at quiet
  simp only [step, running, phase, Bool.false_eq_true, if_false, recvlen, Nat.succ_pos, if_true,
    nameDatagram, filled, quiet, passes, decoded, badCopy_eq_false short]

/-- A session does with a datagram of `sendfile` what the receiver does with its frame. -/
theorem step_data (running : s.fault = false) (phase : s.recv.phase = .data)
    (datagram : p.datagram = some (frame.encode memory)) (inside : frame.seqNum < seqLen)
    (htype : frame.type < 2 ^ 16) (hid : frame.packetId < 2 ^ 32)
    (short : frame.payload.length ≤ bufLen + 4) :
    s.step p = some ⟨overlay (frame.encode memory) s.buf,
      (s.recv.iteration (some frame) p.now).1, false⟩ := by
  have fits : frame.payload.length + 12 ≤ s.request := by
    rw [request, if_neg (by rw [phase]; decide)]
    dsimp only [bufLen] at short ⊢
    omega
  have hseq : frame.seqNum < 2 ^ 16 := by
    dsimp only [seqLen] at inside
    omega
  obtain ⟨recvlen, filled, quiet, passes, decoded⟩ := received_encode datagram fits hseq htype hid
  rw [recvlen, filled] at passes decoded
  rw [recvlen] at quiet
  have copied : badCopy (frame.payload.length + 12) (bufLen + 12 + 4) = false := by
    apply badCopy_eq_false
    omega
  simp only [step, running, phase, Bool.false_eq_true, if_false, recvlen, Nat.succ_pos, if_true,
    dataDatagram, filled, quiet, passes, decoded, dataFrame_eq p.beyond inside copied]
  rfl

end Session

end ComputerNetworks.Transfer
