import ComputerNetworks.Lib.Simulation
import ComputerNetworks.Transfer.ErrorDetection
import ComputerNetworks.Transfer.Invariant
import ComputerNetworks.Transfer.OutputFile

/-!
# The two programs on their sockets

`sendfile` and `recvfile` with the bytes they exchange. A datagram that is delivered may
be damaged: the bits of an error pattern are flipped in it. Both programs read it over
what their buffers held before and test its checksum; `sendfile` decodes an ack from
fixed offsets, however short the datagram was. The block that `sendfile` asks for to hold the
file name is three bytes short, and `recvfile` names its output in arrays that may be too short.

The checksum is linear, so that a pattern goes undetected exactly when it would pass the
test by itself. As long as the network makes no such errors, the programs run as the
two-party system of their frames and acks does when corrupted datagrams are lost.
-/

namespace ComputerNetworks.Transfer

open Lib

/-! ### Acks -/

namespace Ack

/-- The bytes of an ack that its checksum covers. -/
def body (ack : Ack) : List UInt8 :=
  htons 0 ++ htons (BitVec.ofNat 16 ack.ackNum) ++ htons (BitVec.ofNat 16 ack.type) ++
    htonl (BitVec.ofNat 32 ack.tvSec) ++ htonl (BitVec.ofNat 32 ack.tvUsec)

/-- The datagram that `recvfile` makes of an ack; `memory` is what lies behind `packet`. -/
def encode (ack : Ack) (memory : ℕ → UInt8) : List UInt8 :=
  htons (calcCrc16 (overlay ack.body memory) 14) ++ ack.body

/-- The fields that `sendfile` reads. -/
def decode (buf : ℕ → UInt8) : Ack where
  ackNum := (ntohs buf 4).toNat
  type := (ntohs buf 6).toNat
  tvSec := (ntohl buf 8).toNat
  tvUsec := (ntohl buf 12).toNat

end Ack

/-! ### `sendfile` and its buffer -/

/-- The sender, its receive buffer, and whether it has accessed memory outside an object. -/
structure SendSession where
  buf : ℕ → UInt8
  send : Sender
  fault : Bool

namespace SendSession

/-- The bytes at `packet`. `malloc` is asked for ten more than the file name has, and grants
`slack` more than that. -/
def packetRoom (job : Job) (slack : ℕ) : ℕ := job.fileName.length + 10 + slack

/-- Before the file name is sent; the buffer holds whatever was in its memory. The header, the
name and its zero have been written to `packet`. -/
def start (job : Job) (slack : ℕ) (memory : ℕ → UInt8) : SendSession :=
  ⟨memory, .start, decide (packetRoom job slack < 8 + 4 + (job.fileName.length + 1))⟩

/-- `recvfrom` and the test of what it returned: the ack that is then looked at, if any. -/
def receive (datagram : Option (List UInt8)) (s : SendSession) : SendSession × Option Ack :=
  let bytes := (datagram.getD []).take bufLen
  let buf := overlay bytes s.buf
  if bytes.length = 0 then (s, none)
  else if bufLen < 2 + Session.crcLen bytes.length then ({ s with fault := true }, none)
  else ({ s with buf := buf }, if crcTest buf bytes.length then some (Ack.decode buf) else none)

/-- An iteration of the loop that announces the file name, with the datagrams it sends. -/
def name (job : Job) (now : Timeval) (memory : ℕ → UInt8) (datagram : Option (List UInt8))
    (s : SendSession) : SendSession × List (List UInt8) :=
  let received := s.receive datagram
  let moved := received.1.send.nameIteration job now received.2
  ({ received.1 with send := moved.1 }, moved.2.map fun frame => frame.encode memory)

/-- The main loop up to its send pass. -/
def poll (scan : ℕ → Timeval) (datagram : Option (List UInt8)) (now : Timeval)
    (s : SendSession) : SendSession :=
  let received := s.receive datagram
  { received.1 with send := received.1.send.poll scan received.2 now }

/-- The send pass at one slot, with the datagrams it sends. -/
def slot (file : RegularFile) (now : Timeval) (memory : ℕ → UInt8) (offset : ℕ)
    (s : SendSession) : SendSession × List (List UInt8) :=
  let moved := s.send.sendSlot file now offset
  ({ s with send := moved.1 }, moved.2.map fun frame => frame.encode memory)

end SendSession

/-! ### The network -/

/-- A datagram on its way: its position among those sent, and the bits flipped in it. -/
structure Delivery where
  position : ℕ
  error : List UInt8

namespace Delivery

/-- What a poll returns to which `delivery` is delivered. -/
def pick (sent : List (List UInt8)) : Option Delivery → Option (Option (List UInt8))
  | none => some none
  | some delivery => sent[delivery.position]?.bind fun bytes =>
      if delivery.error.length = bytes.length then some (some (corrupt bytes delivery.error))
      else none

/-- The errors are none, or the checksum shows them: they would not pass the test alone. -/
def Detectable (delivery : Delivery) : Prop :=
  delivery.error = List.replicate delivery.error.length 0 ∨
    crcTest (overlay delivery.error fun _ => 0) delivery.error.length = false

instance (delivery : Delivery) : Decidable delivery.Detectable :=
  inferInstanceAs (Decidable (_ ∨ _))

end Delivery

/-- The path that `recvfile` makes of the name that is sent. -/
def Job.outputFile (job : Job) : Option (List UInt8) := Transfer.outputFile (job.fileName ++ [0])

/-- Both programs and all datagrams ever sent. `output` is the path of the file that `recvfile`
has open. -/
structure Sockets where
  sender : SendSession
  receiver : Session
  output : Option (List UInt8)
  frames : List (List UInt8)
  acks : List (List UInt8)
  clock : ℕ

/-- What can happen next. -/
inductive SocketAction
  /-- An iteration of the sender's loop that announces the file name. -/
  | name (now : Timeval) (memory : ℕ → UInt8) (recv : Option Delivery)
  /-- The first half of an iteration of the sender's main loop. -/
  | poll (scan : ℕ → Timeval) (recv : Option Delivery) (now : Timeval)
  /-- One slot of the sender's send pass. -/
  | slot (now : Timeval) (memory : ℕ → UInt8)
  /-- The receiver waits for a datagram that names the file, and then opens its output, which
  may fail. -/
  | accept (recv : Delivery) (beyond : ℕ → Bool) (tv : Timeval) (memory : ℕ → UInt8) (opens : Bool)
  /-- An iteration of the receiver's main loop. -/
  | receive (recv : Option Delivery) (beyond : ℕ → Bool) (tv : Timeval) (memory : ℕ → UInt8)
  /-- One of the receiver's last acks. -/
  | tail (tv : Timeval) (memory : ℕ → UInt8)

/-- The delivery of an action, if there is one. -/
def SocketAction.delivery : SocketAction → Option Delivery
  | .name _ _ recv => recv
  | .poll _ recv _ => recv
  | .accept recv _ _ _ _ => some recv
  | .receive recv _ _ _ => recv
  | _ => none

namespace Sockets

/-- A clock reading the receiver can see next. -/
def ticks (w : Sockets) (tv : Timeval) : Bool :=
  decide (w.clock ≤ tv.micros ∧ tv.micros / 2 ^ 32 = w.clock / 2 ^ 32)

/-- The sender moved and sent some datagrams. -/
def sent (w : Sockets) (result : SendSession × List (List UInt8)) : Sockets :=
  { w with sender := result.1, frames := w.frames ++ result.2 }

/-- The receiver moved and sent an ack stamped `tv`. -/
def acked (w : Sockets) (tv : Timeval) (memory : ℕ → UInt8) (s : Session) (ack : Ack) : Sockets :=
  { w with receiver := s, acks := w.acks ++ [ack.encode memory], clock := tv.micros }

/-- `recvfile` behind the file name: it goes outside its arrays, opens its output, or leaves. -/
def create (opens : Bool) (w : Sockets) : Sockets :=
  match outputFile w.receiver.recv.fileName with
  | none => { w with receiver := { w.receiver with fault := true } }
  | some path => { w with output := if opens then some path else none }

/-- What happens on an action; `none` when it is not possible, as nothing is after a fault. -/
def move (job : Job) (w : Sockets) : SocketAction → Option Sockets
  | .name now memory recv =>
    if w.sender.fault = false ∧ w.sender.send.phase = .naming then
      (Delivery.pick w.acks recv).map fun datagram =>
        w.sent (w.sender.name job now memory datagram)
    else none
  | .poll scan recv now =>
    if w.sender.fault = false ∧ w.sender.send.phase = .top then
      (Delivery.pick w.acks recv).map fun datagram => w.sent (w.sender.poll scan datagram now, [])
    else none
  | .slot now memory =>
    match w.sender.send.phase with
    | .pass offset =>
      if w.sender.fault = false then some (w.sent (w.sender.slot job.file now memory offset))
      else none
    | _ => none
  | .accept recv beyond tv memory opens =>
    if w.receiver.recv.phase = .naming then
      (Delivery.pick w.frames (some recv)).bind fun datagram =>
        (w.receiver.step ⟨datagram, beyond, tv⟩).map fun s =>
          -- a datagram that fails the test is not answered
          if s.recv.phase = .data then (w.acked tv memory s (.stamp (seqLen - 1) tv)).create opens
          else { w with receiver := s }
    else none
  | .receive recv beyond tv memory =>
    if w.receiver.recv.phase = .data ∧ w.output.isSome then
      (Delivery.pick w.frames recv).bind fun datagram =>
        (w.receiver.step ⟨datagram, beyond, tv⟩).map fun s =>
          w.acked tv memory s (.build s.recv.laSeq tv)
    else none
  | .tail tv memory =>
    match w.receiver.recv.phase with
    | .tail (remaining + 1) =>
      if w.receiver.fault = false ∧ w.output.isSome then
        let moved := w.receiver.recv.tailIteration remaining tv
        some (w.acked tv memory { w.receiver with recv := moved.1 } moved.2)
      else none
    | _ => none

/-- The clock reading of the action, if it is one of the receiver's, can be seen next: the readings
never decrease and stay between two multiples of `2 ^ 32` microseconds. -/
def onTime (w : Sockets) : SocketAction → Bool
  | .accept _ _ tv _ _ | .receive _ _ tv _ | .tail tv _ => w.ticks tv
  | .name _ _ _ | .poll _ _ _ | .slot _ _ => true

/-- Both programs at their start, with the receiver's clock at `clock`. -/
def start (job : Job) (slack clock : ℕ) (memory memory' : ℕ → UInt8) : Sockets :=
  ⟨.start job slack memory, .start memory', none, [], [], clock⟩

/-- A reading of the receiver's clock is on time, and the network makes only errors that the
checksum shows. -/
structure Tame (w : Sockets) (a : SocketAction) (_ : Sockets) : Prop where
  onTime : w.onTime a = true
  detected : ∀ delivery, a.delivery = some delivery → delivery.Detectable

end Sockets

end ComputerNetworks.Transfer
