import ComputerNetworks.Transfer.Frames
import Mathlib.Logic.Function.Basic

/-!
# `sendfile`

The sender first repeats the file name until an ack numbered `seqLen - 1`
arrives. Its main loop then alternates a poll, which marks timed-out slots and
handles at most one ack, with a pass over the window that transmits new and
timed-out chunks. `Sender.phase` is the program counter between the system
calls, so that other parties can move while a pass is under way.

`Sender.Aligned` is the bookkeeping law of the main loop: slot flags, frame
queue, packet counter and file position describe one run of consecutive chunks.
-/

namespace ComputerNetworks.Transfer

open Lib

/-- `is_set` of a slot: 0, 1 and 2 in the source. -/
inductive AlarmState
  | unset
  | waiting
  | timedOut
  deriving DecidableEq, Repr

/-- `struct alarm_time`, the timer of a sequence number. -/
structure Alarm where
  isSet : AlarmState
  size : ℕ
  tvSec : ℤ
  tvUsec : ℤ
  deriving DecidableEq, Repr

namespace Alarm

/-- `is_set = 2`, the timeout tag. -/
def expire (alarm : Alarm) : Alarm := { alarm with isSet := .timedOut }

/-- `is_set = 0`, the frame is acknowledged. -/
def clear (alarm : Alarm) : Alarm := { alarm with isSet := .unset }

/-- The size `fread` returned for the slot's chunk. -/
def resize (alarm : Alarm) (size : ℕ) : Alarm := { alarm with size := size }

end Alarm

/-- A node of the sender's queue: the header it was given and the bytes behind it. -/
structure SendNode where
  seqNum : ℕ
  type : ℕ
  packetId : ℕ
  data : List UInt8
  deriving DecidableEq

/-- The datagram `sendto` makes from the header and the first `size` bytes. -/
def SendNode.frame (node : SendNode) (size : ℕ) : Frame :=
  ⟨node.seqNum, node.type, node.packetId, node.data.take size⟩

/-- Where the sender stands between two system calls. -/
inductive SenderPhase
  /-- Repeating the file name. -/
  | naming
  /-- At the top of the main loop. -/
  | top
  /-- In the send pass, before the slot at this distance from `la_seq`. -/
  | pass (offset : ℕ)
  /-- Out of the main loop. -/
  | left
  deriving DecidableEq, Repr

/-- What a run of `sendfile` is given. -/
structure Job where
  file : RegularFile
  fileName : List UInt8

/-- The frame that carries the file name and its terminating NUL. -/
def Job.nameFrame (job : Job) : Frame := ⟨seqLen - 1, 2, 0, job.fileName ++ [0]⟩

/-- The variables of `sendfile`. -/
structure Sender where
  phase : SenderPhase
  firstTime : Bool
  startSec : ℤ
  startUsec : ℤ
  laSeq : ℕ
  lastWindow : ℤ
  packetId : ℕ
  alarmList : ℕ → Alarm
  root : List SendNode
  pos : ℕ
  timeout : ℤ
  lastAckTime : ℕ

namespace Sender

/-- The variables before the file name is first sent. -/
def start : Sender where
  phase := .naming
  firstTime := true
  startSec := 0
  startUsec := 0
  laSeq := 0
  lastWindow := -1
  packetId := 0
  alarmList _ := ⟨.unset, 0, 0, 0⟩
  root := []
  pos := 0
  timeout := 5000
  lastAckTime := 0

/-- One iteration of the loop that announces the file name. -/
def nameIteration (job : Job) (now : Timeval) (recv : Option Ack) (s : Sender) :
    Sender × List Frame :=
  let due := s.firstTime || decide (s.timeout < now.elapsed s.startSec s.startUsec)
  let s := if due then
      { s with firstTime := false, startSec := Timeval.toInt32 now.sec
               startUsec := Timeval.toInt32 now.usec }
    else s
  let sent := if due then [job.nameFrame] else []
  match recv with
  | none => (s, sent)
  | some ack =>
    if s.lastAckTime < ack.time ∧ ack.type = 1 ∧ ack.ackNum = seqLen - 1 then
      ({ s with lastAckTime := ack.time, phase := .top }, sent)
    else (s, sent)

/-- The body of `check_timeout` at slot `k`, whose elapsed time is read at `now`. -/
def scanSlot (k : ℕ) (now : Timeval) (s : Sender) : Sender :=
  let alarm := s.alarmList k
  if alarm.isSet ≠ .unset ∧ s.timeout < now.elapsed alarm.tvSec alarm.tvUsec then
    { s with alarmList := Function.update s.alarmList k alarm.expire }
  else s

/-- `check_timeout`; `scan j` is the clock when slot `la_seq + j` is looked at. -/
def checkTimeout (scan : ℕ → Timeval) (s : Sender) : Sender :=
  (List.range windowLen).foldl (fun t j => t.scanSlot ((s.laSeq + j) % seqLen) (scan j)) s

/-- The body of the ack loop at slot `k`: clear its flag and drop a frame. -/
def releaseSlot (laSeq ackNum k : ℕ) (s : Sender) : Sender :=
  if between laSeq ackNum k then
    { s with alarmList := Function.update s.alarmList k (s.alarmList k).clear
             root := dequeue s.root }
  else s

/-- The ack loop over the window, which releases the slots up to the acked one. -/
def release (ackNum : ℕ) (s : Sender) : Sender :=
  (List.range windowLen).foldl
    (fun t j => t.releaseSlot s.laSeq ackNum ((s.laSeq + j) % seqLen)) s

/-- Move the window behind an acked slot. -/
def acceptAck (ackNum : ℕ) (s : Sender) : Sender :=
  { s.release ackNum with laSeq := (ackNum + 1) % seqLen }

/-- `timeout` from a round trip time, with 1.1 as an exact rational. What is below the range of
an `int` becomes the least of them. -/
def nextTimeout (newRtt : ℤ) : ℤ :=
  if 11 * newRtt < 50000 then max ((11 * newRtt).tdiv 10) (-2 ^ 31) else 5000

/-- The round trip time since the acked slot was armed sets the timeout. -/
def updateRtt (now : Timeval) (ackNum : ℕ) (s : Sender) : Sender :=
  let alarm := s.alarmList ackNum
  { s with timeout := nextTimeout (now.elapsed alarm.tvSec alarm.tvUsec) }

/-- An ack that passed the CRC test. -/
def handleAck (now : Timeval) (ack : Ack) (s : Sender) : Sender :=
  if s.lastAckTime < ack.time then
    let s := { s with lastAckTime := ack.time }
    -- `continue`: the send pass of this iteration is skipped
    if seqLen ≤ ack.ackNum then { s with phase := .top }
    else if between s.laSeq ((s.laSeq + windowLen - 1) % seqLen) ack.ackNum then
      if (ack.ackNum : ℤ) = s.lastWindow then { s with phase := .left }
      else { (s.acceptAck ack.ackNum).updateRtt now ack.ackNum with phase := .pass 0 }
    else { s.updateRtt now ack.ackNum with phase := .pass 0 }
  else { s with phase := .pass 0 }

/-- The main loop up to its send pass: time out slots and poll the socket once. -/
def poll (scan : ℕ → Timeval) (recv : Option Ack) (now : Timeval) (s : Sender) : Sender :=
  match recv with
  | none => { s.checkTimeout scan with phase := .pass 0 }
  | some ack => (s.checkTimeout scan).handleAck now ack

@[simp] theorem poll_none (scan : ℕ → Timeval) (now : Timeval) (s : Sender) :
    s.poll scan none now = { s.checkTimeout scan with phase := .pass 0 } := rfl

@[simp] theorem poll_some (scan : ℕ → Timeval) (ack : Ack) (now : Timeval) (s : Sender) :
    s.poll scan (some ack) now = (s.checkTimeout scan).handleAck now ack := rfl

/-- Read the next chunk into the node for slot `k`, a new one at the end of the
queue when the queue has none at distance `offset`. -/
def createFrame (file : RegularFile) (offset k : ℕ) (s : Sender) : Sender × SendNode :=
  let missing := (getK s.root offset).isNone
  let index := if missing then s.root.length else offset
  let root := if missing then enqueue s.root ⟨0, 0, 0, []⟩ else s.root
  let size := file.readLen s.pos bufLen
  let packetId := (s.packetId + 1) % 2 ^ 32
  let data := (root[index]?.map SendNode.data).getD []
  let node : SendNode :=
    ⟨k, if size < bufLen then 4 else 2, packetId, file.read s.pos bufLen ++ data.drop size⟩
  ({ s with
      root := root.set index node
      packetId := packetId
      pos := s.pos + size
      lastWindow := if size < bufLen then k else s.lastWindow
      alarmList := Function.update s.alarmList k ((s.alarmList k).resize size) }, node)

/-- `set_alarm` and `sendto` for slot `k`. -/
def transmit (now : Timeval) (k : ℕ) (node : SendNode) (s : Sender) : Sender × List Frame :=
  let size := (s.alarmList k).size
  let alarm : Alarm := ⟨.waiting, size, Timeval.toInt32 now.sec, Timeval.toInt32 now.usec⟩
  ({ s with alarmList := Function.update s.alarmList k alarm }, [node.frame size])

/-- The send pass at the slot `offset` places into the window. -/
def sendSlot (file : RegularFile) (now : Timeval) (offset : ℕ) (s : Sender) :
    Sender × List Frame :=
  let i := s.laSeq + offset
  let k := i % seqLen
  if s.lastWindow ≠ -1 ∧ s.lastWindow < i then ({ s with phase := .top }, [])
  else
    let s := { s with phase := if offset + 1 < windowLen then .pass (offset + 1) else .top }
    match (s.alarmList k).isSet with
    | .waiting => (s, [])
    | .timedOut =>
      -- an armed slot always has its frame in the queue (`Aligned.root`)
      match getK s.root offset with
      | some node => s.transmit now k node
      | none => (s, [])
    | .unset =>
      let created := s.createFrame file offset k
      created.1.transmit now k created.2

/-- The send pass makes a new frame at this slot: it does not stop here, and the slot's flag
is clear. -/
def creates (offset : ℕ) (s : Sender) : Bool :=
  !decide (s.lastWindow ≠ -1 ∧ s.lastWindow < ((s.laSeq + offset : ℕ) : ℤ)) &&
    decide ((s.alarmList ((s.laSeq + offset) % seqLen)).isSet = .unset)

end Sender

end ComputerNetworks.Transfer
