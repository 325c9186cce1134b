import ComputerNetworks.Lib.BinaryHeap
import ComputerNetworks.Lib.Runs
import ComputerNetworks.Routing.Router
import Mathlib.Data.Rat.Defs
import Mathlib.Data.List.Indexes

/-!
# The simulator

Nodes, links and events of the simulator, and its loop: look at the first event of
`event_q`, dispatch it, pop. What an event handler computes its time from is a plain
sum here, and the time is the sum as an `unsigned int`.
-/

namespace ComputerNetworks.Simulation

open Lib Routing

/-- A link between two nodes. `tenLossProb` is ten times `loss_prob`. -/
structure Link where
  node1 : ℕ
  node2 : ℕ
  delay : UInt32
  tenLossProb : ℚ
  isAlive : Bool

/-- The kinds of events. Links and routers are given by number. -/
inductive EventKind
  | changeDelay (link : ℕ) (delay : UInt32)
  | linkDie (link : ℕ)
  | linkComeUp (link : ℕ)
  | xmitPktEndToEnd (src : ℕ) (pkt : Packet)
  | xmitPktOnLink (dest dport link : ℕ) (pkt : Packet)
  | recvPkt (dest dport : ℕ) (pkt : Packet)
  | alarm (router : ℕ) (type : AlarmType)
  deriving DecidableEq

/-- The nodes that `init` looks up in `node_table` for the event of a file. -/
def EventKind.looksUp : EventKind → List ℕ
  | .xmitPktEndToEnd src (.data _ dest _) => [src, dest]
  | _ => []

/-- What a configuration file can hold. -/
def EventKind.scripted : EventKind → Bool
  | .changeDelay _ _ | .linkDie _ | .linkComeUp _ | .xmitPktEndToEnd _ _ => true
  | .xmitPktOnLink _ _ _ _ | .recvPkt _ _ _ | .alarm _ _ => false

/-- Where a transmission goes: the node it will reach and the link. -/
def EventKind.route : EventKind → Option (ℕ × ℕ)
  | .xmitPktOnLink dest _ number _ => some (dest, number)
  | _ => none

/-- An event to be: its kind and the sum its time is computed from. -/
structure Request where
  due : ℕ
  kind : EventKind
  deriving DecidableEq

/-- Where a transmission goes. -/
def Request.route (request : Request) : Option (ℕ × ℕ) := request.kind.route

/-- An event in `event_q`. The serial number is its identity, as its address is in the source. -/
structure Event extends Request where
  serial : ℕ
  deriving DecidableEq

/-- `time`, an `unsigned int`. -/
def Event.time (event : Event) : ℕ := event.due % 2 ^ 32

/-- The simulator in its loop. Each node has the links at its ports, by number. -/
structure Simulator where
  eventQ : Array Event
  globalTime : ℕ
  stopTime : ℕ
  links : List Link
  linkVector : ℕ → List ℕ
  routers : ℕ → Option Router
  allocated : ℕ

/-- What the surroundings provide to one turn of the loop: the next number of `rand()`
and what uninitialised memory holds. -/
structure Choice where
  draw : ℕ
  junk : ℕ

/-- How long after it was handled an alarm goes off again. -/
def period : AlarmType → ℕ
  | .expire => 1000
  | .pingPong => 10000
  | .update => 30000

theorem period_le (type : AlarmType) : period type ≤ 30000 := by cases type <;> decide

namespace Simulator

/-- The events `new` makes of requests. -/
def events (allocated : ℕ) (requests : List Request) : List Event :=
  requests.zipIdx allocated |>.map fun (request, serial) => ⟨request, serial⟩

/-- `event_q.push` of new events. -/
def schedule (requests : List Request) (s : Simulator) : Simulator :=
  { s with
    eventQ := pushAll Event.time s.eventQ (events s.allocated requests)
    allocated := s.allocated + requests.length }

/-- `Node::send` and `Link::send_generic`. A port that the node does not have is
undefined behaviour, and a link that the other node does not have ends the program. -/
def send (id : ℕ) (s : Simulator) (packet : Send) : Option Request := do
  let number ← (s.linkVector id)[packet.1]?
  let link ← s.links[number]?
  let rcpt := if link.node1 = id then link.node2 else link.node1
  let port ← (s.linkVector rcpt).idxOf? number
  return ⟨s.globalTime, .xmitPktOnLink rcpt port number packet.2⟩

/-- A call of `recv` or `handle_alarm` at a node, which sends, and then the requests
that follow. Pairs that do not fit the packet are written past its end, which is undefined
behaviour. -/
def call (id : ℕ) (event : Routing.Event) (rest : List Request) (s : Simulator) :
    Option (Simulator × List Request) := do
  let router ← s.routers id
  let (after, sends) := router.handle event
  if sends.all fun packet => packet.2.fits then
    let requests ← sends.mapM (s.send id)
    return ({ s with routers := Function.update s.routers id (some after) }, requests ++ rest)
  else none

/-- Change one link. -/
def onLink (number : ℕ) (change : Link → Link) (s : Simulator) : Option (Simulator × List Request) :=
  s.links[number]?.map fun link => ({ s with links := s.links.set number (change link) }, [])

/-- `dispatch`, with the events it pushes. -/
def dispatch (choice : Choice) (event : Event) (s : Simulator) : Option (Simulator × List Request) :=
  match event.kind with
  | .changeDelay number delay => s.onLink number fun link => { link with delay := delay }
  | .linkDie number => s.onLink number fun link => { link with isAlive := false }
  | .linkComeUp number => s.onLink number fun link => { link with isAlive := true }
  | .xmitPktEndToEnd src pkt => s.call src (.recv s.globalTime 0xffff pkt choice.junk) []
  | .xmitPktOnLink dest dport number pkt =>
    s.links[number]?.map fun link =>
      if link.isAlive ∧ link.tenLossProb ≤ ((choice.draw % 10 : ℕ) : ℚ) then
        (s, [⟨event.time + link.delay.toNat, .recvPkt dest dport pkt⟩])
      else (s, [])
  | .recvPkt dest dport pkt => s.call dest (.recv s.globalTime dport pkt choice.junk) []
  | .alarm id type =>
    s.call id (.alarm s.globalTime type) [⟨s.globalTime + period type, .alarm id type⟩]

end Simulator

/-- What one turn of the loop did. -/
structure Turn where
  dispatched : Event
  scheduled : List Event
  popped : Option Event

namespace Simulator

/-- One turn of the loop of `run`. The event dispatched is deleted behind it, also when another
one was popped. -/
def turn (pops : Pop Event.time) (choice : Choice) (s : Simulator) : Option (Simulator × Turn) := do
  let currEvent ← s.eventQ[0]?
  let (s, requests) ← { s with globalTime := currEvent.time }.dispatch choice currEvent
  let scheduled := events s.allocated requests
  let s := s.schedule requests
  return ({ s with eventQ := pops.pop s.eventQ }, ⟨currEvent, scheduled, s.eventQ[0]?⟩)

end Simulator

/-- What `init` reads from the configuration file, with the order in which `node_table` is
gone through and what `global_time` holds before it is set. New links are alive. -/
structure Config where
  nodes : List ℕ
  links : List Link
  events : List Request
  stopTime : ℕ
  protocolType : ProtocolType
  globalTime : ℕ
  alive : ∀ link ∈ links, link.isAlive = true
  scripted : ∀ event ∈ events, event.kind.scripted = true

namespace Config

variable (config : Config)

/-- `link_vector`: a link is pushed at both of its nodes. -/
def linkVector (id : ℕ) : List ℕ :=
  config.links.zipIdx.flatMap fun (link, number) =>
    (if link.node1 = id then [number] else []) ++ (if link.node2 = id then [number] else [])

/-- The simulator behind `init`. -/
def simulator : Simulator :=
  ({ eventQ := #[]
     globalTime := config.globalTime
     stopTime := config.stopTime
     links := config.links
     linkVector := config.linkVector
     routers := fun _ => none
     allocated := 0 } : Simulator).schedule config.events

/-- One node in `init_routing_protocol`. -/
def initNode (s : Simulator) (id : ℕ) : Option Simulator := do
  let router := Router.init ((s.linkVector id).length % 2 ^ 16) id config.protocolType
  let pings ← (router.generatePingPongMsg s.globalTime).mapM (s.send id)
  let alarms := [.pingPong, .update, .expire].map fun type =>
    ⟨s.globalTime + period type, .alarm id type⟩
  return { s with routers := Function.update s.routers id (some router) }.schedule (pings ++ alarms)

/-- `init` and `init_routing_protocol`. For a node that is not there `node_table` makes an entry
`NULL` when it is looked up, and that is a node to be started. -/
def boot : Option Simulator :=
  if ∀ event ∈ config.events, ∀ id ∈ event.kind.looksUp, id ∈ config.nodes then
    config.nodes.foldlM config.initNode config.simulator
  else none

end Config

/-- A run of the loop so far: the simulator, and what each turn did. -/
structure History where
  simulator : Simulator
  log : List Turn

namespace History

/-- The last turn broke out of the loop. -/
def Ended (h : History) : Prop :=
  h.log ≠ [] ∧ h.simulator.stopTime ≠ 0 ∧ h.simulator.stopTime < h.simulator.globalTime

instance (h : History) : Decidable h.Ended :=
  inferInstanceAs (Decidable (h.log ≠ [] ∧ h.simulator.stopTime ≠ 0 ∧
    h.simulator.stopTime < h.simulator.globalTime))

/-- The next turn, unless the loop is over. -/
def step (pops : Pop Event.time) (h : History) (choice : Choice) : Option History :=
  if h.Ended then none
  else (h.simulator.turn pops choice).map fun (s, turn) => ⟨s, h.log ++ [turn]⟩

end History

end ComputerNetworks.Simulation
