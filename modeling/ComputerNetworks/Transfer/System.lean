import ComputerNetworks.Lib.Runs
import ComputerNetworks.Transfer.Sender
import ComputerNetworks.Transfer.Receiver

/-!
# The transfer as a two-party system

The two programs and the two directions of the network between them. A direction
is the list of all datagrams ever sent on it, and a poll returns nothing or any
one of them: datagrams are lost by never being picked, duplicated by being picked
twice, and delayed and reordered at will. A corrupted datagram is a lost one.

The clocks of both programs are arbitrary, and every `sendto` succeeds. An ack carries
its stamp modulo `2 ^ 32` microseconds, so that the order of two stamps tells which ack is
older only while the receiver's readings never decrease and stay between two multiples
of `2 ^ 32`. Runs in which they do are those of `System.step`.
-/

namespace ComputerNetworks.Transfer

open Lib

/-- The state of a transfer. The two bases unwrap the endpoints' `la_seq`. -/
structure System where
  sender : Sender
  receiver : Receiver
  frames : List Frame
  acks : List Ack
  clock : ℕ
  sndBase : ℕ
  rcvBase : ℕ

/-- What can happen next. A poll names the position of the datagram it picks. -/
inductive Action
  /-- An iteration of the sender's loop that announces the file name. -/
  | name (now : Timeval) (recv : Option ℕ)
  /-- The first half of an iteration of the sender's main loop. -/
  | poll (scan : ℕ → Timeval) (recv : Option ℕ) (now : Timeval)
  /-- One slot of the sender's send pass. -/
  | slot (now : Timeval)
  /-- The receiver takes a datagram as the file name. -/
  | accept (recv : ℕ) (tv : Timeval)
  /-- An iteration of the receiver's main loop. -/
  | receive (recv : Option ℕ) (tv : Timeval)
  /-- One of the receiver's last acks. -/
  | tail (tv : Timeval)

/-- What a poll that picks position `recv` returns. -/
def pick {α : Type*} (sent : List α) : Option ℕ → Option (Option α)
  | none => some none
  | some k => sent[k]?.map some

namespace System

/-- A clock reading the receiver can see next. -/
def ticks (sys : System) (tv : Timeval) : Bool :=
  decide (sys.clock ≤ tv.micros ∧ tv.micros / 2 ^ 32 = sys.clock / 2 ^ 32)

/-- The sender moved and sent some frames. -/
def sent (sys : System) (result : Sender × List Frame) : System :=
  { sys with sender := result.1, frames := sys.frames ++ result.2
             sndBase := unwrap seqLen sys.sndBase result.1.laSeq }

/-- The receiver moved and sent an ack stamped `tv`. -/
def acked (sys : System) (tv : Timeval) (result : Receiver × Ack) : System :=
  { sys with receiver := result.1, acks := sys.acks ++ [result.2], clock := tv.micros
             rcvBase := unwrap seqLen sys.rcvBase result.1.laSeq }

/-- What happens on an action; `none` when it is not possible. -/
def move (job : Job) (sys : System) : Action → Option System
  | .name now recv =>
    if sys.sender.phase = .naming then
      (pick sys.acks recv).map fun ack => sys.sent (sys.sender.nameIteration job now ack)
    else none
  | .poll scan recv now =>
    if sys.sender.phase = .top then
      (pick sys.acks recv).map fun ack => sys.sent (sys.sender.poll scan ack now, [])
    else none
  | .slot now =>
    match sys.sender.phase with
    | .pass offset => some (sys.sent (sys.sender.sendSlot job.file now offset))
    | _ => none
  | .accept recv tv =>
    if sys.receiver.phase = .naming then
      sys.frames[recv]?.map fun frame => sys.acked tv (sys.receiver.nameIteration frame tv)
    else none
  | .receive recv tv =>
    if sys.receiver.phase = .data then
      (pick sys.frames recv).map fun frame => sys.acked tv (sys.receiver.iteration frame tv)
    else none
  | .tail tv =>
    match sys.receiver.phase with
    | .tail (remaining + 1) => some (sys.acked tv (sys.receiver.tailIteration remaining tv))
    | _ => none

/-- The clock reading of the action, if it is one of the receiver's, can be seen next. -/
def onTime (sys : System) : Action → Bool
  | .accept _ tv | .receive _ tv | .tail tv => sys.ticks tv
  | .name _ _ | .poll _ _ _ | .slot _ => true

/-- The transition function while the receiver's clock readings are on time. -/
def step (job : Job) (sys : System) (a : Action) : Option System :=
  if sys.onTime a then sys.move job a else none

variable {job : Job} {sys t : System} {a : Action}

theorem step_eq_some : step job sys a = some t ↔ sys.onTime a = true ∧ move job sys a = some t := by
  rw [step, Option.ite_none_right_eq_some]

theorem move_of_step (next : step job sys a = some t) : move job sys a = some t :=
  (step_eq_some.mp next).2

@[simp] theorem step_name (now : Timeval) (recv : Option ℕ) :
    step job sys (.name now recv) = move job sys (.name now recv) := rfl

@[simp] theorem step_poll (scan : ℕ → Timeval) (recv : Option ℕ) (now : Timeval) :
    step job sys (.poll scan recv now) = move job sys (.poll scan recv now) := rfl

@[simp] theorem step_slot (now : Timeval) : step job sys (.slot now) = move job sys (.slot now) := rfl

/-- Both programs at their start, with the receiver's clock at `clock`. -/
def start (clock : ℕ) : System := ⟨.start, .start, [], [], clock, 0, 0⟩

/-- The states a transfer of `job` can reach. -/
def Reaches (job : Job) (sys : System) : Prop :=
  Reachable (step job) (fun s => ∃ clock, s = start clock) sys

end System

end ComputerNetworks.Transfer
