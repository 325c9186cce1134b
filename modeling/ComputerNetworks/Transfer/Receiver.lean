import ComputerNetworks.Transfer.Frames
import Mathlib.Logic.Function.Basic

/-!
# `recvfile`

The receiver waits for a file name, acknowledges it, and then loops: poll the
socket once, handle the frame if there is one, and acknowledge the slot before
its window. Frames may arrive anywhere in the window; the ones that complete a
run from its start are written out and their nodes recycled.
-/

namespace ComputerNetworks.Transfer

/-- A node of the receiver's queue: a buffer and the number of bytes in use. -/
structure RecvNode where
  data : List UInt8
  size : ℕ
  deriving DecidableEq

/-- `memcpy` of a payload to the front of the buffer. -/
def RecvNode.fill (node : RecvNode) (payload : List UInt8) : RecvNode :=
  ⟨payload ++ node.data.drop payload.length, payload.length⟩

/-- The bytes `fwrite` takes from a node. -/
def RecvNode.content (node : RecvNode) : List UInt8 := node.data.take node.size

@[simp] theorem RecvNode.content_fill (node : RecvNode) (payload : List UInt8) :
    (node.fill payload).content = payload := by
  simp [fill, content]

/-- A node as `malloc` returns it; what its buffer holds is never read. -/
def RecvNode.fresh : RecvNode := ⟨[], 0⟩

/-- Where the receiver stands between two system calls. -/
inductive ReceiverPhase
  /-- Waiting for the file name. -/
  | naming
  /-- In the main loop. -/
  | data
  /-- The file is closed, and this many last acks remain to be sent. -/
  | tail (remaining : ℕ)
  deriving DecidableEq, Repr

/-- The variables of `recvfile`. -/
structure Receiver where
  phase : ReceiverPhase
  fileName : List UInt8
  laSeq : ℕ
  received : ℕ → Bool
  lastWindow : ℤ
  readyExit : ℕ
  lastId : ℕ
  root : List RecvNode
  written : List UInt8

namespace Receiver

/-- The variables before the file name arrives. -/
def start : Receiver where
  phase := .naming
  fileName := []
  laSeq := 0
  received _ := false
  lastWindow := -1
  readyExit := 0
  lastId := 0
  root := []
  written := []

/-- The first datagram names the file; the queue gets its nodes. -/
def nameIteration (frame : Frame) (tv : Timeval) (r : Receiver) : Receiver × Ack :=
  ({ r with phase := .data, fileName := frame.payload
            root := List.replicate windowLen RecvNode.fresh },
    .stamp (seqLen - 1) tv)

/-- The number of received slots in a row from slot `i` on, at most `n`. -/
def runLength (received : ℕ → Bool) (i : ℕ) : ℕ → ℕ
  | 0 => 0
  | n + 1 => if received (i % seqLen) then runLength received (i + 1) n + 1 else 0

/-- Copy a payload into the node at window position `ind`. -/
def storeAt (root : List RecvNode) (ind : ℕ) (payload : List UInt8) : List RecvNode :=
  match getK root ind with
  | some node => root.set ind (node.fill payload)
  | none => enqueue root (RecvNode.fresh.fill payload)

/-- One round of the write loop: write the first node out and recycle it. -/
def writeHead (reverseCount : ℕ) (r : Receiver) : Receiver :=
  { r with
    lastId := (r.lastId + 1) % 2 ^ 32
    written := r.written ++ (r.root.headD .fresh).content
    root := enqueue (dequeue r.root) .fresh
    received := Function.update r.received ((r.laSeq + reverseCount) % seqLen) false }

/-- The write loop, for `count` rounds. -/
def writeRun : ℕ → ℕ → Receiver → Receiver
  | 0, _, r => r
  | count + 1, reverseCount, r => writeRun count (reverseCount + 1) (r.writeHead reverseCount)

/-- Mark and buffer a frame of the window. -/
def buffer (frame : Frame) (r : Receiver) : Receiver :=
  { r with
    received := Function.update r.received frame.seqNum true
    root := storeAt r.root (mapToWindow r.laSeq frame.seqNum) frame.payload }

/-- The frames that can be written after buffering the one numbered `seqNum`. -/
def countRun (seqNum : ℕ) (r : Receiver) : ℕ :=
  if seqNum ≠ r.laSeq then 0 else runLength r.received r.laSeq windowLen

/-- The exit test and the advance of the window by `count` slots. -/
def advance (count : ℕ) (r : Receiver) : Receiver :=
  { r with
    readyExit := if r.readyExit ≠ 0 ∧ r.lastWindow = (r.laSeq : ℤ) + count - 1 then 2 else r.readyExit
    laSeq := (r.laSeq + count) % seqLen }

/-- A frame whose slot is in the window and not yet filled. -/
def accept (frame : Frame) (r : Receiver) : Receiver :=
  let r := r.buffer frame
  let count := r.countRun frame.seqNum
  (r.writeRun count 0).advance count

/-- A type 4 frame announces the last chunk. -/
def announce (frame : Frame) (r : Receiver) : Receiver :=
  if frame.type = 4 then { r with readyExit := 1, lastWindow := frame.seqNum } else r

/-- A frame that passed the CRC test. -/
def handleFrame (frame : Frame) (r : Receiver) : Receiver :=
  if (frame.type = 2 ∨ frame.type = 4) ∧ r.lastId < frame.packetId then
    let r := r.announce frame
    if between r.laSeq ((r.laSeq + windowLen - 1) % seqLen) frame.seqNum ∧
        r.received frame.seqNum = false then
      r.accept frame
    else r
  else r

/-- One poll of the socket and what is done about its result. -/
def handle (recv : Option Frame) (r : Receiver) : Receiver :=
  match recv with
  | none => r
  | some frame => r.handleFrame frame

/-- One iteration of the main loop: poll, handle, acknowledge, test for the end. -/
def iteration (recv : Option Frame) (tv : Timeval) (r : Receiver) : Receiver × Ack :=
  let r := r.handle recv
  ({ r with phase := if r.readyExit = 2 then .tail 400 else .data }, .build r.laSeq tv)

/-- One of the acks sent after the file is closed. -/
def tailIteration (remaining : ℕ) (tv : Timeval) (r : Receiver) : Receiver × Ack :=
  ({ r with phase := .tail remaining }, .build r.laSeq tv)

end Receiver

end ComputerNetworks.Transfer
