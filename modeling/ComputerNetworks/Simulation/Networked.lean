import ComputerNetworks.Lib.Simulation
import ComputerNetworks.Routing.Probes
import ComputerNetworks.Simulation.Wiring

/-!
# The simulator runs a network

Every run of the simulator is a run of a network of routers in which packets are delayed
and lost at will: an event in `event_q` that transmits or receives a packet is a packet under
way, a transmission that passes changes nothing, and one that does not is a loss. So what
holds in all runs of such a network holds in every simulation.
-/

namespace ComputerNetworks.Simulation

open Lib Routing

/-- The packet an event is about, with the node and the port it will arrive at. -/
def EventKind.packet : EventKind → Option (ℕ × ℕ × Packet)
  | .xmitPktOnLink dest dport _ pkt => some (dest, dport, pkt)
  | .recvPkt dest dport pkt => some (dest, dport, pkt)
  | _ => none

/-- The packets that some events are about. -/
def packets (events : List Event) : List (ℕ × ℕ × Packet) :=
  events.filterMap fun event => event.kind.packet

theorem packets_append (events others : List Event) :
    packets (events ++ others) = packets events ++ packets others := List.filterMap_append

theorem packets_cons (event : Event) (events : List Event) :
    packets (event :: events) = event.kind.packet.toList ++ packets events := by
  cases packet : event.kind.packet <;> simp [packets, packet]

theorem packets_perm {events others : List Event} (perm : events.Perm others) :
    (packets events).Perm (packets others) := perm.filterMap _

theorem packets_events (allocated : ℕ) (requests : List Request) :
    packets (Simulator.events allocated requests) =
      requests.filterMap fun request => request.kind.packet := by
  rw [packets, Simulator.events, List.filterMap_map]
  conv_rhs => rw [← List.zipIdx_map_fst allocated requests, List.filterMap_map]
  rfl

namespace Simulator

variable {config : Config} {s after : Simulator}

/-- Links still end where the configuration has put them. -/
structure WiredAs (config : Config) (s : Simulator) : Prop where
  linkVector : s.linkVector = config.linkVector
  ends : ∀ number : ℕ, s.links[number]?.map (fun link => (link.node1, link.node2)) =
    config.links[number]?.map fun link => (link.node1, link.node2)

/-- A link of the configuration, as it is now. -/
theorem WiredAs.link (as : s.WiredAs config) {number : ℕ} {link : Link}
    (found : config.links[number]? = some link) :
    ∃ now, s.links[number]? = some now ∧ ∀ id, now.otherEnd id = link.otherEnd id := by
  have ends := as.ends number
  rw [found, Option.map_some, Option.map_eq_some_iff] at ends
  obtain ⟨now, present, same⟩ := ends
  obtain ⟨first, second⟩ := Prod.mk.inj same
  exact ⟨now, present, fun id => by rw [Link.otherEnd, Link.otherEnd, first, second]⟩

theorem WiredAs.link_of_now (as : s.WiredAs config) {number : ℕ} {now : Link}
    (present : s.links[number]? = some now) :
    ∃ link, config.links[number]? = some link ∧ ∀ id, now.otherEnd id = link.otherEnd id := by
  have ends := as.ends number
  rw [present, Option.map_some, eq_comm, Option.map_eq_some_iff] at ends
  obtain ⟨link, found, same⟩ := ends
  obtain ⟨first, second⟩ := Prod.mk.inj same
  exact ⟨link, found, fun id => by rw [Link.otherEnd, Link.otherEnd, first, second]⟩

/-- `Node::send` transmits on the link of the port, to the port at its other end. -/
theorem WiredAs.send (as : s.WiredAs config) {id i : ℕ} {packet : Packet} {request : Request}
    (sent : s.send id (i, packet) = some request) : ∃ rcpt port number,
      config.peer id i = some (rcpt, port) ∧ number < config.links.length ∧
        request = ⟨s.globalTime, .xmitPktOnLink rcpt port number packet⟩ := by
  simp only [Simulator.send, as.linkVector, Option.bind_eq_bind, Option.bind_eq_some_iff,
    Option.pure_def, Option.some.injEq] at sent
  obtain ⟨number, at_port, now, present, port, back, rfl⟩ := sent
  obtain ⟨link, found, same⟩ := as.link_of_now present
  refine ⟨now.otherEnd id, port, number, ?_, (List.getElem?_eq_some_iff.mp found).1, rfl⟩
  simp only [Config.peer, at_port, found, Option.bind_eq_bind, Option.bind_some, ← same id]
  rw [show (config.linkVector (now.otherEnd id)).idxOf? number = some port from back]
  rfl

theorem WiredAs.sends (as : s.WiredAs config) (wired : config.Wired) {id : ℕ} {sends : List Send}
    {requests : List Request} (sent : sends.mapM (s.send id) = some requests) :
    (requests.filterMap fun request => request.kind.packet) = wired.topology.emit id sends ∧
      ∀ request ∈ requests, request.route ≠ none := by
  induction sends generalizing requests with
  | nil =>
    cases Option.some.inj (List.mapM_nil.symm.trans sent)
    exact ⟨rfl, by simp⟩
  | cons packet sends ih =>
    simp only [List.mapM_cons, Option.bind_eq_bind, Option.bind_eq_some_iff, Option.pure_def,
      Option.some.injEq] at sent
    obtain ⟨first, made, others, rest, rfl⟩ := sent
    obtain ⟨i, pkt⟩ := packet
    obtain ⟨same, transmits⟩ := ih rest
    obtain ⟨rcpt, port, number, peer, -, rfl⟩ := as.send made
    constructor
    · have here : wired.topology.peer id i = some (rcpt, port) := peer
      simp only [Topology.emit, List.filterMap_cons, EventKind.packet, here, Option.map_some] at same ⊢
      rw [same]
    · intro request member
      rcases List.mem_cons.mp member with rfl | later
      · simp [Request.route, EventKind.route]
      · exact transmits request later

/-- A call of `recv` or `handle_alarm`, with what the router sends. -/
theorem WiredAs.call (as : s.WiredAs config) (wired : config.Wired) {id : ℕ} {event : Routing.Event}
    {rest requests : List Request} (called : s.call id event rest = some (after, requests)) :
    ∃ router sent, s.routers id = some router ∧
      after = { s with routers := Function.update s.routers id (some (router.handle event).1) } ∧
        requests = sent ++ rest ∧ (∀ request ∈ sent, request.route ≠ none) ∧
          (sent.filterMap fun request => request.kind.packet) =
            wired.topology.emit id (router.handle event).2 := by
  obtain ⟨router, sent, found, -, made, rfl, rfl⟩ := call_eq_some called
  obtain ⟨same, transmits⟩ := as.sends wired made
  exact ⟨router, sent, found, rfl, rfl, transmits, same⟩

/-- No handler moves the ends of a link. -/
theorem WiredAs.dispatch (as : s.WiredAs config) {choice : Choice} {event : Event}
    {requests : List Request} (dispatched : s.dispatch choice event = some (after, requests)) :
    after.WiredAs config := by
  have kept := (dispatch_sameQueue dispatched).linkVector.trans as.linkVector
  have changed : ∀ number (change : Link → Link),
      (∀ link, ((change link).node1, (change link).node2) = (link.node1, link.node2)) →
        s.onLink number change = some (after, requests) → after.WiredAs config := by
    intro number change ends made
    obtain ⟨-, -, link, found, links⟩ := onLink_cases made
    refine ⟨kept, fun other => ?_⟩
    rw [← as.ends other, links, List.getElem?_set]
    split_ifs with here inside
    · subst here
      rw [found, Option.map_some, Option.map_some, ends]
    · subst here
      exact absurd (List.getElem?_eq_some_iff.mp found).1 inside
    · rfl
  have same : after.links = s.links → after.WiredAs config := fun links =>
    ⟨kept, fun number => links ▸ as.ends number⟩
  cases kind : event.kind with
  | changeDelay number delay =>
    rw [Simulator.dispatch, kind] at dispatched
    exact changed number (fun link => { link with delay := delay }) (fun _ => rfl) dispatched
  | linkDie number =>
    rw [Simulator.dispatch, kind] at dispatched
    exact changed number (fun link => { link with isAlive := false }) (fun _ => rfl) dispatched
  | linkComeUp number =>
    rw [Simulator.dispatch, kind] at dispatched
    exact changed number (fun link => { link with isAlive := true }) (fun _ => rfl) dispatched
  | xmitPktEndToEnd src pkt =>
    rw [Simulator.dispatch, kind] at dispatched
    exact same (call_cases dispatched).2.1
  | recvPkt dest dport pkt =>
    rw [Simulator.dispatch, kind] at dispatched
    exact same (call_cases dispatched).2.1
  | alarm id type =>
    rw [Simulator.dispatch, kind] at dispatched
    exact same (call_cases dispatched).2.1
  | xmitPktOnLink dest dport number pkt =>
    simp only [Simulator.dispatch, kind, Option.map_eq_some_iff] at dispatched
    obtain ⟨link, -, made⟩ := dispatched
    split_ifs at made <;> obtain ⟨rfl, -⟩ := Prod.mk.inj made <;> exact as

end Simulator

namespace EventKind

/-- What the event names is there: its nodes and its link are those of the configuration. -/
def Proper (config : Config) : EventKind → Prop
  | .changeDelay number _ | .linkDie number | .linkComeUp number => number < config.links.length
  | .xmitPktEndToEnd src pkt =>
    src ∈ config.nodes ∧ ∃ dest ∈ config.nodes, ∃ payload, pkt = .data src dest payload
  | .xmitPktOnLink dest _ number _ => dest ∈ config.nodes ∧ number < config.links.length
  | .recvPkt dest _ _ => dest ∈ config.nodes
  | .alarm id _ => id ∈ config.nodes

end EventKind

/-- A configuration without mistakes: links join two nodes of the list, no node has more links
than an `unsigned short` can count, events name links and nodes that are there, and none is
due before `global_time` is when the nodes start. -/
structure Config.WellFormed (config : Config) : Prop extends config.Wired where
  ends : ∀ link ∈ config.links, ∀ id, link.touches id = true → id ∈ config.nodes
  proper : ∀ request ∈ config.events, request.kind.Proper config
  early : config.globalTime + 30000 < 2 ^ 32
  ahead : ∀ request ∈ config.events, config.globalTime ≤ request.due % 2 ^ 32

namespace Simulator

variable {config : Config} {s after : Simulator} {pops : Pop Event.time} {turn : Turn}
  {choice : Choice}

/-- The packets under way. -/
def flight (s : Simulator) : List (ℕ × ℕ × Packet) := packets s.eventQ.toList

theorem turn_parts (next : s.turn pops choice = some (after, turn)) : ∃ mid requests,
    ({ s with globalTime := turn.dispatched.time } : Simulator).dispatch choice turn.dispatched =
      some (mid, requests) ∧ turn.scheduled = events s.allocated requests ∧
      after.routers = mid.routers ∧ after.links = mid.links ∧ after.linkVector = mid.linkVector := by
  simp only [Simulator.turn, Option.bind_eq_bind, Option.bind_eq_some_iff, Option.pure_def,
    Option.some.injEq, Prod.mk.injEq] at next
  obtain ⟨event, top, ⟨mid, requests⟩, dispatched, rfl, rfl⟩ := next
  refine ⟨mid, requests, dispatched, ?_, rfl, rfl, rfl⟩
  rw [(dispatch_sameQueue dispatched).allocated]

/-- What is under way after a turn that is a call: what the router has sent, and no longer the
packet it was called with. -/
theorem call_flight (heaped : Heaped Event.time s.eventQ) (next : s.turn pops choice = some (after, turn))
    {sent rest : List Request} (scheduled : turn.scheduled = events s.allocated (sent ++ rest))
    (transmits : ∀ request ∈ sent, request.route ≠ none)
    (alarms : rest = [] ∨ turn.dispatched.kind.packet = none ∧
      ∀ request ∈ rest, request.kind.packet = none) :
    (turn.dispatched.kind.packet.toList ++ after.flight).Perm
      ((sent.filterMap fun request => request.kind.packet) ++ s.flight) := by
  have quiet : (rest.filterMap fun request => request.kind.packet) = [] := by
    rw [List.filterMap_eq_nil_iff]
    rcases alarms with rfl | ⟨-, quiet⟩
    · simp
    · exact quiet
  have all : packets turn.scheduled = sent.filterMap fun request => request.kind.packet := by
    rw [scheduled, packets_events, List.filterMap_append, quiet, List.append_nil]
  obtain ⟨-, kept, -, ⟨same, -, perm⟩ | ⟨lost, split, ⟨unrouted, -⟩, perm⟩⟩ := turn_queue heaped next
  · have under := packets_perm perm
    rwa [packets_cons, packets_append, ← same, all] at under
  · -- only the alarm that is set again can be lost
    have member : lost.toRequest ∈ sent ++ rest :=
      mem_events (scheduled ▸ split ▸ List.mem_append_right _ List.mem_cons_self)
    have last : lost.toRequest ∈ rest := by
      rcases List.mem_append.mp member with bad | last
      · exact absurd unrouted (transmits _ bad)
      · exact last
    rcases alarms with rfl | ⟨silent, quiet⟩
    · cases last
    have under := packets_perm perm
    -- it is about no packet, and neither is the alarm that went off
    have gone : packets [lost] = [] := by
      rw [packets_cons, show lost.kind.packet = none from quiet _ last]
      rfl
    rw [packets_append] at under
    rw [split, packets_append, gone, List.append_nil] at all
    rw [silent, ← all]
    exact under

/-- What is under way after a turn that calls no router. -/
theorem idle_flight (heaped : Heaped Event.time s.eventQ) (next : s.turn pops choice = some (after, turn))
    (quiet : turn.dispatched.kind.packet = none) (scheduled : turn.scheduled = []) :
    after.flight.Perm s.flight := by
  have alone : turn.scheduled = events s.allocated ([] ++ []) := scheduled
  have under := call_flight heaped next alone (by simp) (.inl rfl)
  rw [quiet] at under
  exact under

end Simulator

/-- The network is where the simulation is. -/
structure Mirrors (config : Config) (h : History) (net : Network) : Prop where
  heaped : Heaped Event.time h.simulator.eventQ
  wiredAs : h.simulator.WiredAs config
  routers : ∀ id ∈ config.nodes, h.simulator.routers id = some (net.routers id)
  flight : net.flight.Perm h.simulator.flight
  clock : ∀ event ∈ h.simulator.eventQ, net.clock ≤ event.time
  proper : ∀ event ∈ h.simulator.eventQ, event.kind.Proper config

theorem Config.WellFormed.peer_mem {config : Config} (wf : config.WellFormed) {id i rcpt port : ℕ}
    (joined : config.peer id i = some (rcpt, port)) : rcpt ∈ config.nodes := by
  obtain ⟨number, link, -, found, rfl, back⟩ := wf.peer_iff.mp joined
  exact wf.ends link (List.mem_of_getElem? found) _ (Config.touches_of_port back found)

namespace Simulator

variable {config : Config} {s after : Simulator}

/-- What a call sends, and the rest, name what is there. -/
theorem WiredAs.call_proper (as : s.WiredAs config) (wf : config.WellFormed) {id : ℕ}
    {event : Routing.Event} {rest requests : List Request}
    (called : s.call id event rest = some (after, requests))
    (proper : ∀ request ∈ rest, request.kind.Proper config) :
    ∀ request ∈ requests, request.kind.Proper config := by
  obtain ⟨-, -, sent, rfl, all⟩ := call_cases called
  intro request member
  rcases List.mem_append.mp member with new | last
  · obtain ⟨⟨i, packet⟩, made⟩ := all request new
    obtain ⟨rcpt, port, number, peer, inside, rfl⟩ := as.send made
    exact ⟨wf.peer_mem peer, inside⟩
  · exact proper request last

/-- What an event schedules names what is there, if the event does. -/
theorem WiredAs.dispatch_proper (as : s.WiredAs config) (wf : config.WellFormed) {choice : Choice}
    {event : Event} {requests : List Request} (proper : event.kind.Proper config)
    (dispatched : s.dispatch choice event = some (after, requests)) :
    ∀ request ∈ requests, request.kind.Proper config := by
  cases kind : event.kind with
  | changeDelay | linkDie | linkComeUp =>
    rw [Simulator.dispatch, kind] at dispatched
    obtain ⟨-, rfl, -⟩ := onLink_cases dispatched
    simp
  | xmitPktEndToEnd | recvPkt =>
    rw [Simulator.dispatch, kind] at dispatched
    exact as.call_proper wf dispatched (by simp)
  | alarm id type =>
    rw [Simulator.dispatch, kind] at dispatched
    rw [kind] at proper
    refine as.call_proper wf dispatched fun request member => ?_
    rw [List.mem_singleton.mp member]
    exact proper
  | xmitPktOnLink dest dport number pkt =>
    simp only [Simulator.dispatch, kind, Option.map_eq_some_iff] at dispatched
    rw [kind] at proper
    obtain ⟨link, -, made⟩ := dispatched
    split_ifs at made <;> obtain ⟨-, rfl⟩ := Prod.mk.inj made
    · intro request member
      rw [List.mem_singleton.mp member]
      exact proper.1
    · simp

end Simulator

namespace Mirrors

variable {config : Config} {h next : History} {net : Network} {pops : Pop Event.time}
  {choice : Choice} {turn : Turn}

/-- What a turn leaves in order, whatever the event was. -/
theorem turned (m : Mirrors config h net) (wf : config.WellFormed)
    (turned : h.simulator.turn pops choice = some (next.simulator, turn)) :
    Heaped Event.time next.simulator.eventQ ∧ next.simulator.WiredAs config ∧
      (net.clock ≤ turn.dispatched.time ∧
        ∀ event ∈ next.simulator.eventQ, turn.dispatched.time ≤ event.time) ∧
      turn.dispatched.kind.Proper config ∧
        ∀ event ∈ next.simulator.eventQ, event.kind.Proper config := by
  obtain ⟨heaped, kept, inTime, queue⟩ := Simulator.turn_queue m.heaped turned
  obtain ⟨facts, -⟩ := Simulator.turn_cases turned
  obtain ⟨mid, requests, dispatched, scheduled, -, links, linkVector⟩ := Simulator.turn_parts turned
  have top : turn.dispatched ∈ h.simulator.eventQ := Array.mem_of_getElem? facts.top
  have asNow : ({ h.simulator with globalTime := turn.dispatched.time } : Simulator).WiredAs config :=
    ⟨m.wiredAs.linkVector, m.wiredAs.ends⟩
  have afterwards := asNow.dispatch dispatched
  have proper := m.proper _ top
  have incoming : ∀ event ∈ next.simulator.eventQ, event ∈ kept ∨ event ∈ h.simulator.eventQ := by
    intro event inside
    rw [Array.mem_def] at inside ⊢
    rw [← List.mem_append]
    obtain ⟨-, -, perm⟩ | ⟨lost, -, -, perm⟩ := queue
    · exact perm.subset (List.mem_cons_of_mem _ inside)
    · exact perm.subset inside
  refine ⟨heaped, ⟨linkVector.trans afterwards.linkVector, fun number => links ▸ afterwards.ends number⟩,
    ⟨m.clock _ top, fun event inside => ?_⟩, proper, fun event inside => ?_⟩
  · rcases incoming event inside with new | old
    · exact (inTime event new).2.2
    · exact m.heaped.root_le facts.top old
  · rcases incoming event inside with new | old
    · have request := Simulator.mem_events (scheduled ▸ (inTime event new).1)
      exact asNow.dispatch_proper wf proper dispatched _ request
    · exact m.proper event old

/-- A turn that leaves the routers alone and the same packets under way. -/
theorem idle (m : Mirrors config h net) (wf : config.WellFormed)
    (turned : h.simulator.turn pops choice = some (next.simulator, turn))
    (routers : next.simulator.routers = h.simulator.routers) {base : Network}
    (same : base.routers = net.routers) (clock : base.clock = net.clock)
    (flight : base.flight.Perm next.simulator.flight) : Mirrors config next base := by
  obtain ⟨heaped, wiredAs, ⟨before, later⟩, -, proper⟩ := m.turned wf turned
  refine ⟨heaped, wiredAs, fun id member => ?_, flight, fun event inside => ?_, proper⟩
  · rw [routers, same]
    exact m.routers id member
  · rw [clock]
    exact before.trans (later event inside)

/-- A turn that calls a router, against the network without the packet it is called with. -/
theorem called (m : Mirrors config h net) (wf : config.WellFormed)
    (turned : h.simulator.turn pops choice = some (next.simulator, turn)) {id : ℕ}
    (member : id ∈ config.nodes) (event : Routing.Event) (rest : List Request) (base : Network)
    (dispatch : ∀ s : Simulator, s.globalTime = turn.dispatched.time →
      s.dispatch choice turn.dispatched = s.call id event rest)
    (alarms : rest = [] ∨ turn.dispatched.kind.packet = none ∧
      ∀ request ∈ rest, request.kind.packet = none)
    (same : base.routers = net.routers)
    (without : (turn.dispatched.kind.packet.toList ++ base.flight).Perm net.flight) :
    Mirrors config next (base.call wf.topology id turn.dispatched.time event) := by
  obtain ⟨heaped, wiredAs, ⟨before, later⟩, -, proper⟩ := m.turned wf turned
  obtain ⟨mid, requests, dispatched, scheduled, routers, -⟩ := Simulator.turn_parts turned
  have asNow : ({ h.simulator with globalTime := turn.dispatched.time } : Simulator).WiredAs config :=
    ⟨m.wiredAs.linkVector, m.wiredAs.ends⟩
  rw [dispatch _ rfl] at dispatched
  obtain ⟨router, sent, found, rfl, rfl, transmits, emitted⟩ := asNow.call wf.toWired dispatched
  have here : net.routers id = router :=
    Option.some.inj ((m.routers id member).symm.trans found)
  refine ⟨heaped, wiredAs, fun other inside => ?_, ?_, later, proper⟩
  · rw [routers]
    by_cases hit : other = id
    · subst hit
      simp [Network.call, same, here]
    · simpa [Network.call, same, hit] using m.routers other inside
  · have under := Simulator.call_flight m.heaped turned scheduled transmits alarms
    rw [emitted, ← here] at under
    have moved := (m.flight.symm.trans without.symm).append_left
      (wf.topology.emit id ((net.routers id).handle event).2)
    -- the packet that was delivered is on both sides
    have shuffled := under.trans moved
    rw [← List.append_assoc] at shuffled
    have front := shuffled.trans ((List.perm_append_comm).append_right base.flight)
    rw [List.append_assoc] at front
    have cancelled := (List.perm_append_left_iff _).mp front
    simp only [Network.call, same]
    exact (cancelled.trans List.perm_append_comm).symm

/-- A packet under way in the simulation is under way in the network. -/
theorem found (m : Mirrors config h net)
    (turned : h.simulator.turn pops choice = some (next.simulator, turn))
    {entry : ℕ × ℕ × Packet} (packet : turn.dispatched.kind.packet = some entry) :
    ∃ k, net.flight[k]? = some entry ∧
      ([entry] ++ net.flight.eraseIdx k).Perm net.flight := by
  obtain ⟨facts, -⟩ := Simulator.turn_cases turned
  have top := Array.mem_def.mp (Array.mem_of_getElem? facts.top)
  have inside : entry ∈ h.simulator.flight :=
    List.mem_filterMap.mpr ⟨turn.dispatched, top, packet⟩
  obtain ⟨k, small, rfl⟩ := List.getElem_of_mem (m.flight.symm.subset inside)
  exact ⟨k, List.getElem?_eq_getElem small, List.getElem_cons_eraseIdx_perm small⟩

/-- A transmission that passes changes nothing in the network, and one that does not is a loss. -/
theorem transmission (m : Mirrors config h net) (wf : config.WellFormed)
    (turned : h.simulator.turn pops choice = some (next.simulator, turn)) {dest dport number : ℕ}
    {pkt : Packet} (kind : turn.dispatched.kind = .xmitPktOnLink dest dport number pkt) :
    ∃ actions net', exec (Network.step wf.topology) net actions = some net' ∧
      Mirrors config next net' := by
  have packet : turn.dispatched.kind.packet = some (dest, dport, pkt) := by rw [kind]; rfl
  obtain ⟨mid, requests, dispatched, scheduled, routers, -⟩ := Simulator.turn_parts turned
  obtain ⟨-, kept, -, queue⟩ := Simulator.turn_queue m.heaped turned
  simp only [Simulator.dispatch, kind, Option.map_eq_some_iff] at dispatched
  obtain ⟨link, -, made⟩ := dispatched
  split_ifs at made with passes
  · obtain ⟨rfl, rfl⟩ := Prod.mk.inj made
    have arrival : packets turn.scheduled = [(dest, dport, pkt)] := by
      rw [scheduled, packets_events]
      rfl
    refine ⟨[], net, rfl, m.idle wf turned routers rfl rfl (m.flight.trans ?_)⟩
    obtain ⟨same, -, perm⟩ | ⟨lost, split, -, perm⟩ := queue
    · have under := packets_perm perm
      rw [packets_cons, packets_append, packet, ← same, arrival] at under
      exact ((List.perm_append_left_iff _).mp under).symm
    · -- the arrival did not fit, and the transmission is still there
      have none_kept : kept = [] := by
        have length := congrArg List.length (scheduled.symm.trans split)
        rw [Simulator.events_length, List.length_append, List.length_singleton,
          List.length_singleton] at length
        exact List.length_eq_zero_iff.mp (by omega)
      rw [none_kept] at perm
      exact (packets_perm perm).symm
  · obtain ⟨rfl, rfl⟩ := Prod.mk.inj made
    obtain ⟨k, -, without⟩ := m.found turned packet
    have nothing : turn.scheduled = [] := scheduled
    refine ⟨[.lose k], _, exec_singleton rfl, m.idle wf turned routers rfl rfl ?_⟩
    obtain ⟨same, -, perm⟩ | ⟨lost, split, -, -⟩ := queue
    · have under := packets_perm perm
      rw [packets_cons, packets_append, packet, ← same, nothing] at under
      exact (List.perm_append_left_iff _).mp (without.trans (m.flight.trans under.symm))
    · rw [nothing] at split
      simp at split

/-- A turn of the loop is a step of the network, or none. -/
theorem step (m : Mirrors config h net) (wf : config.WellFormed)
    (stepped : h.step pops choice = some next) :
    ∃ actions net', exec (Network.step wf.topology) net actions = some net' ∧
      Mirrors config next net' := by
  obtain ⟨-, turn, turned, -⟩ := History.step_cases stepped
  obtain ⟨-, -, ⟨before, -⟩, proper, -⟩ := m.turned wf turned
  obtain ⟨mid, requests, dispatched, scheduled, routers, -⟩ := Simulator.turn_parts turned
  cases kind : turn.dispatched.kind with
  | changeDelay | linkDie | linkComeUp =>
    -- the links are not part of the network
    rw [Simulator.dispatch, kind] at dispatched
    obtain ⟨-, rfl, -⟩ := Simulator.onLink_cases dispatched
    have quiet := Simulator.idle_flight m.heaped turned (by rw [kind]; rfl) scheduled
    simp only [Simulator.onLink, Option.map_eq_some_iff, Prod.mk.injEq] at dispatched
    obtain ⟨link, -, rfl, -⟩ := dispatched
    exact ⟨[], net, rfl, m.idle wf turned routers rfl rfl (m.flight.trans quiet.symm)⟩
  | xmitPktEndToEnd src pkt =>
    rw [kind] at proper
    obtain ⟨member, dest, -, payload, rfl⟩ := proper
    have call := m.called wf turned member
      (.recv turn.dispatched.time 0xffff (.data src dest payload) choice.junk) [] net
      (fun s now => by rw [Simulator.dispatch, kind, now]) (.inl rfl) rfl
      (by rw [kind]; exact List.Perm.refl _)
    refine ⟨[.originate src turn.dispatched.time dest payload], _, exec_singleton ?_, call⟩
    rw [Network.step, if_pos before]
    rfl
  | xmitPktOnLink dest dport number pkt => exact m.transmission wf turned kind
  | recvPkt dest dport pkt =>
    rw [kind] at proper
    have packet : turn.dispatched.kind.packet = some (dest, dport, pkt) := by rw [kind]; rfl
    obtain ⟨k, at_k, without⟩ := m.found turned packet
    have call := m.called wf turned proper (.recv turn.dispatched.time dport pkt choice.junk) []
      { net with flight := net.flight.eraseIdx k }
      (fun s now => by rw [Simulator.dispatch, kind, now]) (.inl rfl) rfl
      (by rw [packet]; exact without)
    refine ⟨[.deliver k turn.dispatched.time choice.junk], _, exec_singleton ?_, call⟩
    rw [Network.step, if_pos before, Network.event, at_k]
    rfl
  | alarm id type =>
    rw [kind] at proper
    have call := m.called wf turned proper (.alarm turn.dispatched.time type)
      [⟨turn.dispatched.time + period type, .alarm id type⟩] net
      (fun s now => by rw [Simulator.dispatch, kind, now])
      (.inr ⟨by rw [kind]; rfl, fun request inside => by rw [List.mem_singleton.mp inside]; rfl⟩) rfl
      (by rw [kind]; exact List.Perm.refl _)
    refine ⟨[.alarm id turn.dispatched.time type], _, exec_singleton ?_, call⟩
    rw [Network.step, if_pos before]

end Mirrors

/-! ### The start -/

namespace Simulator

variable {config : Config} {s : Simulator}

/-- Sending on a port that leads somewhere succeeds. -/
theorem WiredAs.send_isSome (as : s.WiredAs config) (wired : config.Wired) {id i : ℕ}
    (inside : i < (config.linkVector id).length) (packet : Packet) :
    ∃ request, s.send id (i, packet) = some request := by
  obtain ⟨number, link, j, at_port, found, back, -⟩ := wired.peer_isSome inside
  obtain ⟨now, present, same⟩ := as.link found
  refine ⟨⟨s.globalTime, .xmitPktOnLink (now.otherEnd id) j number packet⟩, ?_⟩
  rw [← same id] at back
  simp only [Simulator.send, as.linkVector, at_port, present, Option.bind_eq_bind, Option.bind_some]
  rw [show (config.linkVector (if now.node1 = id then now.node2 else now.node1)).idxOf? number =
    some j from back]
  rfl

theorem flight_schedule (requests : List Request) (s : Simulator) : (s.schedule requests).flight.Perm
    ((requests.filterMap fun request => request.kind.packet) ++ s.flight) := by
  have pushed : (s.schedule requests).eventQ.toList.Perm _ :=
    pushAll_perm s.eventQ (events s.allocated requests)
  have under := packets_perm pushed
  rw [packets_append, packets_events] at under
  exact under

theorem mem_schedule {requests : List Request} {event : Event}
    (inside : event ∈ (s.schedule requests).eventQ) :
    event.toRequest ∈ requests ∨ event ∈ s.eventQ := by
  rw [Array.mem_def] at inside ⊢
  have pushed : (s.schedule requests).eventQ.toList.Perm _ :=
    pushAll_perm s.eventQ (events s.allocated requests)
  have member := pushed.subset inside
  rcases List.mem_append.mp member with new | old
  · exact .inl (mem_events new)
  · exact .inr old

end Simulator

namespace Config

variable {config : Config} {s after start : Simulator}

/-- What holds while the nodes are started, when those of `ready` are. -/
structure Booting (wf : config.WellFormed) (ready : List ℕ) (s : Simulator) : Prop where
  heaped : Heaped Event.time s.eventQ
  wiredAs : s.WiredAs config
  globalTime : s.globalTime = config.globalTime
  routers : ∀ id ∈ ready, s.routers id = some (wf.topology.site id).start
  flight : (ready.flatMap fun id => wf.topology.emit id
    ((wf.topology.site id).start.generatePingPongMsg config.globalTime)).Perm s.flight
  clock : ∀ event ∈ s.eventQ, config.globalTime ≤ event.time
  proper : ∀ event ∈ s.eventQ, event.kind.Proper config

theorem WellFormed.booting (wf : config.WellFormed) : Booting wf [] config.simulator := by
  have from_file : ∀ event ∈ config.simulator.eventQ, event.toRequest ∈ config.events := by
    intro event inside
    rcases Simulator.mem_schedule inside with new | old
    · exact new
    · cases Array.mem_def.mp old
  refine ⟨?_, ⟨rfl, fun _ => rfl⟩, rfl, by simp, ?_, fun event inside => ?_, fun event inside => ?_⟩
  · have empty : Heaped Event.time #[] := by
      intro p c x y _ at_p
      cases at_p
    exact empty.pushAll _
  · -- nothing in the file is a packet on a link
    have none : (config.events.filterMap fun request => request.kind.packet) = [] := by
      rw [List.filterMap_eq_nil_iff]
      intro request member
      have scripted := config.scripted request member
      cases kind : request.kind <;> simp_all [EventKind.scripted, EventKind.packet]
    have under := Simulator.flight_schedule config.events
      ⟨#[], config.globalTime, config.stopTime, config.links, config.linkVector, fun _ => Option.none, 0⟩
    rw [none] at under
    exact under.symm
  · exact wf.ahead _ (from_file event inside)
  · exact wf.proper _ (from_file event inside)

/-- Starting a node succeeds, and its first PINGs are under way behind it. -/
theorem Booting.initNode {wf : config.WellFormed} {ready : List ℕ} (b : Booting wf ready s) {id : ℕ}
    (member : id ∈ config.nodes) :
    ∃ after, config.initNode s id = some after ∧ Booting wf (ready ++ [id]) after := by
  have router : Router.init ((s.linkVector id).length % 2 ^ 16) id config.protocolType =
      (wf.topology.site id).start := by
    rw [b.wiredAs.linkVector, Nat.mod_eq_of_lt (wf.room id)]
    rfl
  obtain ⟨pings, sent⟩ : ∃ pings, ((wf.topology.site id).start.generatePingPongMsg
      s.globalTime).mapM (s.send id) = some pings := by
    apply exists_mapM
    intro packet inside
    obtain ⟨i, small, rfl⟩ := List.mem_map.mp inside
    exact b.wiredAs.send_isSome wf.toWired (List.mem_range.mp small) _
  let routers := Function.update s.routers id (some (wf.topology.site id).start)
  let alarms : List Request := [.pingPong, .update, .expire].map fun type =>
    ⟨s.globalTime + period type, .alarm id type⟩
  have result : config.initNode s id =
      some (({ s with routers := routers } : Simulator).schedule (pings ++ alarms)) := by
    simp only [Config.initNode, router, sent, Option.bind_eq_bind, Option.bind_some, Option.pure_def]
    rfl
  refine ⟨_, result, ?_⟩
  obtain ⟨emitted, -⟩ := b.wiredAs.sends wf.toWired sent
  have early := wf.early
  -- what is new in the queue is due at once or when an alarm goes off
  have new_event : ∀ request ∈ pings ++ alarms,
      request.kind.Proper config ∧ config.globalTime ≤ request.due ∧ request.due < 2 ^ 32 := by
    intro request inside
    rcases List.mem_append.mp inside with ping | alarm
    · obtain ⟨packet, -, made⟩ := exists_of_mem_mapM sent ping
      obtain ⟨rcpt, port, number, peer, small, rfl⟩ := b.wiredAs.send made
      refine ⟨⟨wf.peer_mem peer, small⟩, b.globalTime.ge, ?_⟩
      change s.globalTime < 2 ^ 32
      rw [b.globalTime]
      omega
    · obtain ⟨type, -, rfl⟩ := List.mem_map.mp alarm
      have short := period_le type
      refine ⟨member, ?_, ?_⟩
      · rw [← b.globalTime]
        exact Nat.le_add_right _ _
      · change s.globalTime + period type < 2 ^ 32
        rw [b.globalTime]
        omega
  refine ⟨b.heaped.pushAll _, ⟨b.wiredAs.linkVector, b.wiredAs.ends⟩, b.globalTime,
    fun other inside => ?_, ?_, fun event inside => ?_, fun event inside => ?_⟩
  · simp only [Simulator.schedule, routers, Function.update_apply]
    split_ifs with here
    · rw [here]
    · exact b.routers other ((List.mem_append.mp inside).resolve_right fun last =>
        here (List.mem_singleton.mp last))
  · have quiet : (alarms.filterMap fun request => request.kind.packet) = [] := rfl
    have under := Simulator.flight_schedule (pings ++ alarms) { s with routers := routers }
    rw [List.filterMap_append, quiet, List.append_nil, emitted, b.globalTime] at under
    rw [List.flatMap_append, List.flatMap_cons, List.flatMap_nil, List.append_nil]
    exact (List.perm_append_comm.trans (b.flight.append_left _)).trans under.symm
  · rcases Simulator.mem_schedule inside with new | old
    · obtain ⟨-, later, narrow⟩ := new_event _ new
      rw [Event.time_eq narrow]
      exact later
    · exact b.clock event old
  · rcases Simulator.mem_schedule inside with new | old
    · exact (new_event _ new).1
    · exact b.proper event old

/-- A file of a configuration without mistakes looks up only nodes that are there. -/
theorem WellFormed.looksUp (wf : config.WellFormed) :
    ∀ event ∈ config.events, ∀ id ∈ event.kind.looksUp, id ∈ config.nodes := by
  intro event listed id looked
  have proper := wf.proper event listed
  cases kind : event.kind with
  | xmitPktEndToEnd src pkt =>
    rw [kind] at proper looked
    obtain ⟨member, dest, there, payload, rfl⟩ := proper
    rcases List.mem_pair.mp looked with rfl | rfl
    · exact member
    · exact there
  | _ =>
    rw [kind] at looked
    cases looked

/-- The nodes are started, and the network with them. -/
theorem WellFormed.boots (wf : config.WellFormed) :
    ∃ start, config.boot = some start ∧ Booting wf config.nodes start := by
  have all : ∀ (ids ready : List ℕ) (s : Simulator), Booting wf ready s →
      (∀ id ∈ ids, id ∈ config.nodes) →
        ∃ start, exec config.initNode s ids = some start ∧ Booting wf (ready ++ ids) start := by
    intro ids
    induction ids with
    | nil => exact fun ready s b _ => ⟨s, rfl, by rwa [List.append_nil]⟩
    | cons id ids ih =>
      intro ready s b members
      obtain ⟨mid, next, b'⟩ := b.initNode (members id List.mem_cons_self)
      obtain ⟨start, rest, final⟩ :=
        ih _ mid b' fun other member => members other (List.mem_cons_of_mem _ member)
      rw [List.append_assoc] at final
      exact ⟨start, (exec_cons_eq_some _).mpr ⟨mid, next, rest⟩, final⟩
  obtain ⟨start, started, booting⟩ := all config.nodes [] config.simulator wf.booting fun _ => id
  exact ⟨start, boots_iff.mpr ⟨wf.looksUp, started⟩, booting⟩

theorem Booting.of_boots (wf : config.WellFormed) (boots : config.boot = some start) :
    Booting wf config.nodes start := by
  obtain ⟨start', boots', booting⟩ := wf.boots
  cases boots.symm.trans boots'
  exact booting

theorem Booting.mirrors {wf : config.WellFormed} (b : Booting wf config.nodes start) :
    Mirrors config ⟨start, []⟩ (Network.start wf.topology config.globalTime) where
  heaped := b.heaped
  wiredAs := b.wiredAs
  routers := b.routers
  flight := b.flight
  clock := b.clock
  proper := b.proper

end Config

/-! ### What holds in every simulation -/

/-- The event at the root calls a router that has a DV packet of 16382 or more pairs to send, more
than the packet has room for. -/
def Simulator.Overruns (choice : Choice) (s : Simulator) : Prop :=
  ∃ event id called rest router, s.eventQ[0]? = some event ∧
    event.kind.calls event.time choice.junk = some (id, called, rest) ∧ s.routers id = some router ∧
      ∃ i packet, (i, .dv packet) ∈ (router.handle called).2 ∧ 16381 < packet.pairs.length

theorem Simulator.Overruns.turn_eq_none {s : Simulator} {choice : Choice} (long : s.Overruns choice)
    (pops : Pop Event.time) : s.turn pops choice = none := by
  obtain ⟨event, id, called, rest, router, top, calls, found, i, packet, sent, many⟩ := long
  rw [Option.eq_none_iff_forall_ne_some]
  rintro ⟨after, turn⟩ next
  obtain ⟨facts, -⟩ := turn_cases next
  obtain ⟨mid, requests, dispatched, -⟩ := turn_parts next
  cases top.symm.trans facts.top
  rw [dispatch_of_calls rfl calls] at dispatched
  obtain ⟨router', -, found', fits, -⟩ := call_eq_some dispatched
  cases found.symm.trans found'
  have few := (Router.fits_dv_iff sent).mp (fits _ sent)
  omega

namespace Mirrors

variable {config : Config} {h : History} {net : Network} {pops : Pop Event.time}

/-- What an event calls is a node of the network, and a call its site admits. -/
theorem admits (m : Mirrors config h net) (wf : config.WellFormed) (sound : net.Sound wf.topology)
    {event : Event} (inside : event ∈ h.simulator.eventQ) {junk id : ℕ} {called : Routing.Event}
    {rest : List Request} (calls : event.kind.calls event.time junk = some (id, called, rest)) :
    id ∈ config.nodes ∧ (wf.topology.site id).admits called = true := by
  have proper := m.proper event inside
  cases kind : event.kind with
  | changeDelay | linkDie | linkComeUp | xmitPktOnLink =>
    rw [kind] at calls
    cases calls
  | xmitPktEndToEnd src pkt =>
    rw [kind] at calls proper
    cases calls
    obtain ⟨member, dest, -, payload, rfl⟩ := proper
    exact ⟨member, rfl⟩
  | alarm =>
    rw [kind] at calls proper
    cases calls
    exact ⟨proper, rfl⟩
  | recvPkt dest dport pkt =>
    rw [kind] at calls proper
    cases calls
    refine ⟨proper, ?_⟩
    -- the packet is under way, so that it arrives where its builder is
    have under : (id, dport, pkt) ∈ net.flight := m.flight.symm.subset
      (List.mem_filterMap.mpr ⟨event, Array.mem_def.mp inside, by rw [kind]; rfl⟩)
    obtain ⟨k, small, at_k⟩ := List.getElem_of_mem under
    have delivered : net.event (.deliver k event.time junk) = some (id, .recv event.time dport pkt junk) := by
      rw [Network.event, List.getElem?_eq_getElem small, at_k]
      rfl
    exact sound.admits delivered

/-- A call that the site of a node admits goes through if its packets fit: the node has a router,
and every packet it sends finds a link and a port at the other end. -/
theorem call_isSome (m : Mirrors config h net) (wf : config.WellFormed)
    (sound : net.Sound wf.topology) {id time : ℕ} (member : id ∈ config.nodes)
    {event : Routing.Event} (admitted : (wf.topology.site id).admits event = true)
    (fits : ∀ packet ∈ ((net.routers id).handle event).2, packet.2.fits = true)
    (rest : List Request) :
    (({ h.simulator with globalTime := time } : Simulator).call id event rest).isSome = true := by
  have asNow : ({ h.simulator with globalTime := time } : Simulator).WiredAs config :=
    ⟨m.wiredAs.linkVector, m.wiredAs.ends⟩
  obtain ⟨requests, made⟩ : ∃ requests, ((net.routers id).handle event).2.mapM
      (({ h.simulator with globalTime := time } : Simulator).send id) = some requests := by
    apply exists_mapM
    rintro ⟨i, packet⟩ sent
    have inside := (sound.coherent id).sends_inside admitted sent
    exact asNow.send_isSome wf.toWired inside packet
  have here : ({ h.simulator with globalTime := time } : Simulator).routers id =
      some (net.routers id) := m.routers id member
  rw [Simulator.call, here]
  simp only [Option.bind_eq_bind, Option.bind_some, List.all_eq_true.mpr fits, if_pos, made]
  rfl

/-- Whatever is at the top of the queue can be dispatched, unless it overruns a packet. -/
theorem dispatch_isSome (m : Mirrors config h net) (wf : config.WellFormed)
    (sound : net.Sound wf.topology) {choice : Choice} {event : Event}
    (top : h.simulator.eventQ[0]? = some event) (fits : ¬ h.simulator.Overruns choice) :
    (({ h.simulator with globalTime := event.time } : Simulator).dispatch choice event).isSome =
      true := by
  have inside : event ∈ h.simulator.eventQ := Array.mem_of_getElem? top
  have proper := m.proper event inside
  have link : ∀ {number : ℕ}, number < config.links.length →
      ∃ now, h.simulator.links[number]? = some now := by
    intro number small
    obtain ⟨now, present, -⟩ := m.wiredAs.link (List.getElem?_eq_getElem small)
    exact ⟨now, present⟩
  cases calls : event.kind.calls event.time choice.junk with
  | some call =>
    obtain ⟨id, called, rest⟩ := call
    obtain ⟨member, admitted⟩ := m.admits wf sound inside calls
    rw [Simulator.dispatch_of_calls rfl calls]
    refine m.call_isSome wf sound member admitted ?_ rest
    rintro ⟨i, packet⟩ sent
    cases packet with
    | dv packet =>
      refine (Router.fits_dv_iff sent).mpr (Nat.le_of_not_lt fun many => fits ?_)
      exact ⟨event, id, called, rest, _, top, calls, m.routers id member, i, packet, sent, many⟩
    | _ => rfl
  | none =>
    unfold Simulator.dispatch
    cases kind : event.kind with
    | xmitPktEndToEnd | recvPkt | alarm =>
      rw [kind] at calls
      cases calls
    | changeDelay number | linkDie number | linkComeUp number =>
      rw [kind] at proper
      obtain ⟨now, present⟩ := link proper
      simp [Simulator.onLink, present]
    | xmitPktOnLink dest dport number pkt =>
      rw [kind] at proper
      obtain ⟨now, present⟩ := link proper.2
      simp [present]

/-- The loop goes on until it is over, the queue is empty or a packet is overrun. -/
theorem step_eq_none (m : Mirrors config h net) (wf : config.WellFormed) (sound : net.Sound wf.topology)
    (pops : Pop Event.time) (choice : Choice) : h.step pops choice = none ↔
      h.Ended ∨ h.simulator.eventQ.size = 0 ∨ h.simulator.Overruns choice := by
  unfold History.step
  split_ifs with ended
  · exact iff_of_true rfl (.inl ended)
  rw [or_iff_right ended, Option.map_eq_none_iff]
  by_cases long : h.simulator.Overruns choice
  · exact iff_of_true (long.turn_eq_none pops) (.inr long)
  rw [or_iff_left long, Simulator.turn]
  cases top : h.simulator.eventQ[0]? with
  | none =>
    rw [Array.getElem?_eq_none_iff] at top
    exact iff_of_true rfl (Nat.le_zero.mp top)
  | some event =>
    obtain ⟨result, dispatched⟩ := Option.isSome_iff_exists.mp (m.dispatch_isSome wf sound top long)
    obtain ⟨inside, -⟩ := Array.getElem?_eq_some_iff.mp top
    refine iff_of_false ?_ inside.ne'
    simp [dispatched]

end Mirrors

namespace History

variable {config : Config} {pops : Pop Event.time} {start : Simulator} {final : History}
  {choices : List Choice}

/-- A simulation so far, and the network run it is. -/
theorem mirrored (wf : config.WellFormed) (boots : config.boot = some start)
    (run : exec (History.step pops) ⟨start, []⟩ choices = some final) : ∃ actions net,
      exec (Network.step wf.topology) (Network.start wf.topology config.globalTime) actions =
        some net ∧ Mirrors config final net := by
  have booting := Config.Booting.of_boots wf boots
  have simulates : Simulates (History.step pops) (Network.step wf.topology) (fun _ _ _ => True)
      (Mirrors config) := fun _ _ _ _ mirrors stepped _ => mirrors.step wf stepped
  exact simulates.run booting.mirrors (EachStep.of_forall fun _ _ _ _ => trivial) run

/-- Every simulation of a configuration without mistakes is a run of the network it describes:
the routers are the same, and the packets under way are those in the events. -/
theorem run_networked (wf : config.WellFormed) (boots : config.boot = some start)
    (run : exec (History.step pops) ⟨start, []⟩ choices = some final) : ∃ actions net,
      exec (Network.step wf.topology) (Network.start wf.topology config.globalTime) actions =
        some net ∧
      (∀ id ∈ config.nodes, final.simulator.routers id = some (net.routers id)) ∧
      net.flight.Perm final.simulator.flight := by
  obtain ⟨actions, net, networked, mirrors⟩ := mirrored wf boots run
  exact ⟨actions, net, networked, mirrors.routers, mirrors.flight⟩

/-- A simulation of a configuration without mistakes starts, and while all times fit, its routers
stay coherent, the event that is deleted is the one that was popped, and each turn goes through
until the loop is over, the queue is empty or a router has a table that no packet has room for: no
router is missing, no packet is sent on a port without a link, and no link is missing at its
other end. -/
theorem run_never_stuck (wf : config.WellFormed) (pops : Pop Event.time) : ∃ start, config.boot = some start ∧
    ∀ choices final, exec (History.step pops) ⟨start, []⟩ choices = some final → final.Unwrapped →
      (∀ id ∈ config.nodes, ∃ router, final.simulator.routers id = some router ∧
        router.Coherent (wf.topology.site id)) ∧
      (∀ turn ∈ final.log, turn.popped = some turn.dispatched) ∧
      ∀ choice, final.step pops choice = none ↔
        final.Ended ∨ final.simulator.eventQ.size = 0 ∨ final.simulator.Overruns choice := by
  obtain ⟨start, boots, -⟩ := wf.boots
  refine ⟨start, boots, fun choices final run unwrapped => ?_⟩
  have orderly := Orderly.run (Config.boot_filled boots) run unwrapped
  obtain ⟨actions, net, networked, mirrors⟩ := mirrored wf boots run
  have sound : net.Sound wf.topology := exec_invariant (fun _ _ _ sound next => sound.step next)
    (Network.Sound.start wf.topology config.globalTime) networked
  exact ⟨fun id member => ⟨_, mirrors.routers id member, sound.coherent id⟩, orderly.popped,
    mirrors.step_eq_none wf sound pops⟩

end History

/-- The triangle has no mistakes. -/
theorem triangle_wellFormed : triangle.WellFormed where
  loopless := by decide
  room id := by
    simp only [Config.linkVector, triangle, List.zipIdx_cons, List.zipIdx_nil, List.flatMap_cons,
      List.flatMap_nil, List.append_nil, List.length_append]
    split_ifs <;> decide
  ends := by
    simp only [triangle, Link.touches, decide_eq_true_eq, List.mem_cons]
    grind
  proper := by simp [triangle]
  early := by decide
  ahead := by simp [triangle]

/-- The first turns of the triangle are a run of three routers joined to each other. -/
theorem triangle_networked : ∃ start final actions net, triangle.boot = some start ∧
    exec (History.step (Pop.binary Event.time)) ⟨start, []⟩ (List.replicate 18 ⟨0, 0⟩) = some final ∧
    exec (Network.step triangle_wellFormed.topology)
      (Network.start triangle_wellFormed.topology 0) actions = some net ∧
    net.flight.Perm final.simulator.flight := by
  have ran : (triangle.boot.bind fun start =>
      exec (History.step (Pop.binary Event.time)) ⟨start, []⟩
        (List.replicate 18 ⟨0, 0⟩)).isSome = true := by decide +kernel
  obtain ⟨final, found⟩ := Option.isSome_iff_exists.mp ran
  obtain ⟨start, boots, run⟩ := Option.bind_eq_some_iff.mp found
  obtain ⟨actions, net, networked, -, flight⟩ :=
    History.run_networked triangle_wellFormed boots run
  exact ⟨start, final, actions, net, boots, run, networked, flight⟩

/-- After these turns the routers of the triangle are coherent, and there is a next turn. -/
theorem triangle_never_stuck : ∃ start final, triangle.boot = some start ∧
    exec (History.step (Pop.binary Event.time)) ⟨start, []⟩ (List.replicate 18 ⟨0, 0⟩) = some final ∧
    (∀ id ∈ triangle.nodes, ∃ router, final.simulator.routers id = some router ∧
      router.Coherent (triangle_wellFormed.topology.site id)) ∧
    ∀ choice, final.step (Pop.binary Event.time) choice = none ↔
      final.Ended ∨ final.simulator.eventQ.size = 0 ∨ final.simulator.Overruns choice := by
  have ran : ((triangle.boot.bind fun start =>
      exec (History.step (Pop.binary Event.time)) ⟨start, []⟩ (List.replicate 18 ⟨0, 0⟩)).any
        fun final => decide final.Unwrapped) = true := by decide +kernel
  obtain ⟨final, found, unwrapped⟩ := (Option.any_eq_true _ _).mp ran
  obtain ⟨start, boots, run⟩ := Option.bind_eq_some_iff.mp found
  obtain ⟨start', boots', safe⟩ :=
    History.run_never_stuck triangle_wellFormed (Pop.binary Event.time)
  cases boots.symm.trans boots'
  obtain ⟨coherent, -, next⟩ := safe _ final run (of_decide_eq_true unwrapped)
  exact ⟨start, final, boots, run, coherent, next⟩

end ComputerNetworks.Simulation
