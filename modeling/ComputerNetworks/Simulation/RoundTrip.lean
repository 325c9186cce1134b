import ComputerNetworks.Routing.Probes
import ComputerNetworks.Simulation.Delivery
import ComputerNetworks.Simulation.Networked

/-!
# Round trip times

A PING is stamped with the time it is sent at, and handed to the link at that time; it
arrives after the delay of the link, is answered at once, and the PONG arrives after another
delay. So the cost that a router measures for a link is twice its delay, to the millisecond.
The events in the queue keep count.
-/

namespace ComputerNetworks.Simulation

open Lib Routing

/-- The time stamp of a PING or a PONG, and how often it has crossed the link when it is sent. -/
def stamp : Packet → Option (ℕ × ℕ)
  | .ping _ time => some (time, 0)
  | .pong _ _ time => some (time, 1)
  | _ => none

/-! ### Calls -/

/-- A packet that node `id` sends on its port `i` at `time` is transmitted. -/
def Transmits (config : Config) (time id i : ℕ) (packet : Packet) (request : Request) : Prop :=
  ∃ rcpt port number, config.peer id i = some (rcpt, port) ∧
    (config.linkVector id)[i]? = some number ∧ (config.linkVector rcpt)[port]? = some number ∧
      request = ⟨time, .xmitPktOnLink rcpt port number packet⟩

namespace Simulator

variable {config : Config} {s after : Simulator} {choice : Choice} {event : Event}
  {requests rest : List Request} {id : ℕ} {called : Routing.Event}

/-- An event that calls no router changes none. -/
theorem routers_of_not_calls (quiet : event.kind.calls event.time choice.junk = none)
    (dispatched : s.dispatch choice event = some (after, requests)) : after.routers = s.routers := by
  have changed : ∀ {number change}, s.onLink number change = some (after, requests) →
      after.routers = s.routers := by
    intro number change made
    obtain ⟨link, -, same⟩ := Option.map_eq_some_iff.mp made
    obtain ⟨rfl, -⟩ := Prod.mk.inj same
    rfl
  unfold dispatch at dispatched
  cases kind : event.kind with
  | changeDelay | linkDie | linkComeUp =>
    rw [kind] at dispatched
    exact changed dispatched
  | xmitPktOnLink dest dport number pkt =>
    simp only [kind, Option.map_eq_some_iff] at dispatched
    obtain ⟨link, -, made⟩ := dispatched
    split_ifs at made <;> obtain ⟨rfl, -⟩ := Prod.mk.inj made <;> rfl
  | xmitPktEndToEnd | recvPkt | alarm =>
    rw [kind] at quiet
    cases quiet

theorem WiredAs.transmits (as : s.WiredAs config) (wired : config.Wired) {i : ℕ} {packet : Packet}
    {request : Request} (sent : s.send id (i, packet) = some request) :
    Transmits config s.globalTime id i packet request := by
  obtain ⟨rcpt, port, number, peer, -, rfl⟩ := as.send sent
  obtain ⟨number', link, at_port, -, rfl, back⟩ := wired.peer_iff.mp peer
  simp only [Simulator.send, as.linkVector, at_port, Option.bind_eq_bind, Option.bind_some,
    Option.bind_eq_some_iff, Option.pure_def, Option.some.injEq, Request.mk.injEq, true_and,
    EventKind.xmitPktOnLink.injEq] at sent
  obtain ⟨-, -, -, -, -, -, rfl, -⟩ := sent
  exact ⟨_, port, number', peer, at_port, back, rfl⟩

/-- A call transmits what the router sends, and schedules the rest behind it. -/
theorem WiredAs.call_transmits (as : s.WiredAs config) (wired : config.Wired)
    (made : s.call id called rest = some (after, requests)) :
    ∃ router sent, s.routers id = some router ∧
      after.routers = Function.update s.routers id (some (router.handle called).1) ∧
        requests = sent ++ rest ∧
          (∀ request ∈ sent, ∃ i packet, (i, packet) ∈ (router.handle called).2 ∧
            Transmits config s.globalTime id i packet request) ∧
          ∀ i packet, (i, packet) ∈ (router.handle called).2 → ∃ request ∈ sent,
            Transmits config s.globalTime id i packet request := by
  obtain ⟨router, sent, found, -, sends, rfl, rfl⟩ := call_eq_some made
  refine ⟨router, sent, found, rfl, rfl, fun request member => ?_, fun i packet member => ?_⟩
  · obtain ⟨⟨i, packet⟩, inside, sent⟩ := exists_of_mem_mapM sends member
    exact ⟨i, packet, inside, as.transmits wired sent⟩
  · obtain ⟨request, inside, sent⟩ := mem_of_mem_mapM sends member
    exact ⟨request, inside, as.transmits wired sent⟩

end Simulator

/-! ### The start -/

namespace Config

/-- Starting a node adds its router, with a PING on each port and its alarms, and nothing else. -/
structure Started (config : Config) (s : Simulator) (id : ℕ) (after : Simulator)
    (requests : List Request) : Prop where
  globalTime : s.globalTime = config.globalTime
  eq : after = ({ s with
    routers := Function.update s.routers id
      (some (Router.init (config.linkVector id).length id config.protocolType)) } : Simulator).schedule
        requests
  comes : ∀ request ∈ requests, (∃ i, Transmits config s.globalTime id i (.ping id s.globalTime) request) ∨
    ∃ type, request = ⟨s.globalTime + period type, .alarm id type⟩
  pings : ∀ i < (config.linkVector id).length, ∃ request ∈ requests,
    Transmits config s.globalTime id i (.ping id s.globalTime) request
  alarms : ∀ type, (⟨s.globalTime + period type, .alarm id type⟩ : Request) ∈ requests

variable {config : Config} {s after start : Simulator} {id : ℕ}

theorem Wired.started (wired : config.Wired) (as : s.WiredAs config)
    (now : s.globalTime = config.globalTime) (next : config.initNode s id = some after) :
    ∃ requests, config.Started s id after requests := by
  have ports : (s.linkVector id).length % 2 ^ 16 = (config.linkVector id).length := by
    rw [as.linkVector, Nat.mod_eq_of_lt (wired.room id)]
  simp only [initNode, ports, Option.bind_eq_bind, Option.bind_eq_some_iff, Option.pure_def,
    Option.some.injEq] at next
  obtain ⟨pings, sends, rfl⟩ := next
  refine ⟨_, now, rfl, fun request member => ?_, fun i small => ?_, fun type => ?_⟩
  · rcases List.mem_append.mp member with ping | alarm
    · obtain ⟨packet, listed, made⟩ := exists_of_mem_mapM sends ping
      obtain ⟨i, -, rfl⟩ := List.mem_map.mp listed
      exact .inl ⟨i, as.transmits wired made⟩
    · obtain ⟨type, -, rfl⟩ := List.mem_map.mp alarm
      exact .inr ⟨type, rfl⟩
  · obtain ⟨request, member, made⟩ := mem_of_mem_mapM sends
      (List.mem_map.mpr ⟨i, List.mem_range.mpr small, rfl⟩)
    exact ⟨request, List.mem_append_left _ member, as.transmits wired made⟩
  · exact List.mem_append_right _ (List.mem_map.mpr ⟨type, by cases type <;> simp, rfl⟩)

/-- What holds behind `init`, and survives the start of every node, holds when the loop begins. -/
theorem Wired.boot_invariant {I : Simulator → Prop} (wired : config.Wired) (first : I config.simulator)
    (preserved : ∀ s id after requests, I s → config.Started s id after requests → I after)
    (boots : config.boot = some start) : I start := by
  suffices start.WiredAs config ∧ start.globalTime = config.globalTime ∧ I start from this.2.2
  refine Config.boot_invariant
    (I := fun s => s.WiredAs config ∧ s.globalTime = config.globalTime ∧ I s)
    ⟨⟨rfl, fun _ => rfl⟩, rfl, first⟩ ?_ boots
  rintro s id after ⟨as, now, holds⟩ next
  obtain ⟨requests, started⟩ := wired.started as now next
  have holds := preserved s id after requests holds started
  rw [started.eq] at holds ⊢
  exact ⟨⟨as.linkVector, as.ends⟩, now, holds⟩

/-- What a node starts with is not due too early or too late. -/
theorem Started.due {requests : List Request} (started : config.Started s id after requests)
    {request : Request} (new : request ∈ requests) :
    config.globalTime ≤ request.due ∧ request.due ≤ config.globalTime + 30000 := by
  rw [← started.globalTime]
  rcases started.comes request new with ⟨i, _, _, _, -, -, -, rfl⟩ | ⟨type, rfl⟩
  · exact ⟨le_rfl, Nat.le_add_right _ _⟩
  · exact ⟨Nat.le_add_right _ _, Nat.add_le_add_left (period_le type) _⟩

end Config

/-- A simulation and the network it is, in which packets arrive where they were sent to. -/
def Mirrored (config : Config) (wf : config.WellFormed) (h : History) : Prop :=
  ∃ net : Network, Mirrors config h net ∧ net.Sound wf.topology

namespace Mirrored

variable {config : Config} {wf : config.WellFormed} {h next : History} {pops : Pop Event.time}
  {choice : Choice}

theorem step (m : Mirrored config wf h) (stepped : h.step pops choice = some next) :
    Mirrored config wf next := by
  obtain ⟨net, mirrors, sound⟩ := m
  obtain ⟨actions, net', run, mirrors'⟩ := mirrors.step wf stepped
  exact ⟨net', mirrors', exec_invariant (fun _ _ _ sound next => sound.step next) sound run⟩

theorem boot {start : Simulator} (boots : config.boot = some start) : Mirrored config wf ⟨start, []⟩ := by
  exact ⟨_, (Config.Booting.of_boots wf boots).mirrors, Network.Sound.start wf.topology config.globalTime⟩

theorem wiredAs (m : Mirrored config wf h) (time : ℕ) :
    ({ h.simulator with globalTime := time } : Simulator).WiredAs config := by
  obtain ⟨net, mirrors, -⟩ := m
  exact ⟨mirrors.wiredAs.linkVector, mirrors.wiredAs.ends⟩

/-- What an event calls is a node with a coherent router, and a call its site admits. -/
theorem admits (m : Mirrored config wf h) {event : Event} (inside : event ∈ h.simulator.eventQ)
    {junk id : ℕ} {called : Routing.Event} {rest : List Request}
    (calls : event.kind.calls event.time junk = some (id, called, rest)) : ∃ router,
      h.simulator.routers id = some router ∧ router.Coherent (wf.topology.site id) ∧
        (wf.topology.site id).admits called = true := by
  obtain ⟨net, mirrors, sound⟩ := m
  obtain ⟨member, admitted⟩ := mirrors.admits wf sound inside calls
  exact ⟨net.routers id, mirrors.routers id member, sound.coherent id, admitted⟩

/-- A call with a packet that is not a DATA packet is its arrival. -/
theorem received (m : Mirrored config wf h) {event : Event} (inside : event ∈ h.simulator.eventQ)
    {id now port time junk junk' : ℕ} {called : Routing.Event} {rest : List Request} {packet : Packet}
    (calls : event.kind.calls time junk = some (id, called, rest))
    (same : called = .recv now port packet junk')
    (other : ∀ source dest payload, packet ≠ .data source dest payload) :
    event.kind = .recvPkt id port packet ∧ now = time := by
  obtain ⟨net, mirrors, -⟩ := m
  have proper := mirrors.proper event inside
  cases kind : event.kind with
  | recvPkt dest dport pkt =>
    rw [kind] at calls
    cases calls
    cases same
    exact ⟨rfl, rfl⟩
  | xmitPktEndToEnd src pkt =>
    -- what the file originates is DATA
    rw [kind] at calls proper
    obtain ⟨-, dest, -, payload, rfl⟩ := proper
    cases calls
    cases same
    exact absurd rfl (other _ _ _)
  | alarm =>
    rw [kind] at calls
    cases calls
    cases same
  | _ =>
    rw [kind] at calls
    cases calls

end Mirrored

/-- What is in the queue behind a turn was there before or is new. -/
theorem Simulator.incoming {s after : Simulator} {pops : Pop Event.time} {choice : Choice} {turn : Turn}
    (heaped : Heaped Event.time s.eventQ) (next : s.turn pops choice = some (after, turn)) {event : Event}
    (inside : event ∈ after.eventQ) : event ∈ turn.scheduled ∨ event ∈ s.eventQ := by
  obtain ⟨-, kept, inTime, queue⟩ := Simulator.turn_queue heaped next
  have either : event ∈ kept ++ s.eventQ.toList := by
    rw [Array.mem_def] at inside
    obtain ⟨-, -, perm⟩ | ⟨lost, -, -, perm⟩ := queue
    · exact perm.subset (List.mem_cons_of_mem _ inside)
    · exact perm.subset inside
  rcases List.mem_append.mp either with new | old
  · exact .inl (inTime event new).1
  · exact .inr (Array.mem_def.mpr old)

/-! ### Stamps -/

/-- A PING or a PONG on the link is where it should be when this is due: it has crossed the link
so many times since its stamp, and no time was too large. Ports are on the links they are said
to be on. -/
def EventKind.OnTime (linkVector : ℕ → List ℕ) (number delay due : ℕ) : EventKind → Prop
  | .xmitPktOnLink dest dport other pkt => (linkVector dest)[dport]? = some other ∧
      (other = number → ∀ sent trips, stamp pkt = some (sent, trips) →
        due = sent + trips * delay ∧ due < 2 ^ 32)
  | .recvPkt dest dport pkt => (linkVector dest)[dport]? = some number →
      ∀ sent trips, stamp pkt = some (sent, trips) →
        due = sent + (trips + 1) * delay ∧ due < 2 ^ 32
  | _ => True

/-- The port has been measured at `cost`, or not yet or no more. -/
def Priced (cost : ℕ) (port : Port) : Prop :=
  port.cost = cost ∨ port.cost = 0 ∧ port.connected = false

/-- The clock shows the stamp of a PONG and twice the delay. -/
theorem sub32_of_stamp {now sent delay : ℕ} (due : now = sent + 2 * delay) (fits : now < 2 ^ 32) :
    sub32 now sent = 2 * delay := by
  rw [sub32_of_le (by omega) fits]
  omega

theorem Priced.change {cost i : ℕ} {port port' : Port} {event : Routing.Event} (h : Priced cost port)
    (change : PortChange event i port port')
    (measures : ∀ now source dest time junk, event = .recv now i (.pong source dest time) junk →
      sub32 now time = cost) : Priced cost port' := by
  cases change with
  | same => exact h
  | measured pong => exact .inl (measures _ _ _ _ _ pong)
  | replaced => exact h.imp id fun closed => ⟨closed.1, rfl⟩
  | closed => exact .inr ⟨rfl, rfl⟩

/-- The link has its delay, the probes on it are on time, and its ports are priced. -/
structure Paced (config : Config) (number delay : ℕ) (s : Simulator) : Prop where
  link : ∃ link, s.links[number]? = some link ∧ link.delay.toNat = delay
  events : ∀ event ∈ s.eventQ, event.kind.OnTime config.linkVector number delay event.due
  ports : ∀ id router, s.routers id = some router → ∀ i : ℕ, (config.linkVector id)[i]? = some number →
    Priced (2 * delay) (router.ports i)

namespace Paced

variable {config : Config} {wf : config.WellFormed} {h next : History} {pops : Pop Event.time}
  {choice : Choice} {number delay : ℕ}

/-- A probe that comes in on a port of the link comes in time. -/
theorem arrived (paced : Paced config number delay h.simulator) (m : Mirrored config wf h) {event : Event}
    (inside : event ∈ h.simulator.eventQ) {id now i junk junk' sent trips : ℕ} {packet : Packet}
    {rest : List Request}
    (calls : event.kind.calls event.time junk = some (id, .recv now i packet junk', rest))
    (stamped : stamp packet = some (sent, trips)) (at_port : (config.linkVector id)[i]? = some number) :
    event.time = now ∧ now = sent + (trips + 1) * delay := by
  have probe : ∀ source dest payload, packet ≠ .data source dest payload := by
    rintro _ _ _ rfl
    cases stamped
  obtain ⟨kind, rfl⟩ := m.received inside calls rfl probe
  have onTime := paced.events _ inside
  rw [kind] at onTime
  obtain ⟨due, narrow⟩ := onTime at_port sent trips stamped
  exact ⟨rfl, (Event.time_eq narrow).trans due⟩

/-- What a call sends on the link is stamped now, or answers what came in. -/
theorem call_events (paced : Paced config number delay h.simulator) (m : Mirrored config wf h) {event : Event}
    (inside : event ∈ h.simulator.eventQ) {id i : ℕ} {called : Routing.Event} {rest : List Request}
    (calls : event.kind.calls event.time choice.junk = some (id, called, rest)) {router : Router}
    {packet : Packet} (sends : (i, packet) ∈ (router.handle called).2) {request : Request}
    (transmits : Transmits config event.time id i packet request) :
    request.kind.OnTime config.linkVector number delay request.due := by
  obtain ⟨rcpt, port, other, -, at_port, back, rfl⟩ := transmits
  refine ⟨back, fun same sent trips stamped => ?_⟩
  subst same
  cases Router.origin_of_sent sends with
  | data | dv => cases stamped
  | ping alarm =>
    cases stamped
    obtain ⟨-, rfl, -⟩ := EventKind.calls_alarm (alarm ▸ calls)
    rw [Nat.zero_mul, Nat.add_zero]
    exact ⟨rfl, event.time_lt⟩
  | pong ping =>
    cases stamped
    subst ping
    obtain ⟨rfl, due⟩ := paced.arrived m inside calls rfl at_port
    rw [Nat.zero_add] at due
    exact ⟨due, event.time_lt⟩

/-- A turn that calls a router: what it sends is on time, and it measures the right cost. -/
theorem call (paced : Paced config number delay h.simulator) (m : Mirrored config wf h) {event : Event}
    {mid : Simulator} {requests : List Request} (inside : event ∈ h.simulator.eventQ)
    (dispatched : ({ h.simulator with globalTime := event.time } : Simulator).dispatch choice event =
      some (mid, requests))
    {id : ℕ} {called : Routing.Event} {rest : List Request}
    (calls : event.kind.calls event.time choice.junk = some (id, called, rest)) :
    (∀ request ∈ requests, request.kind.OnTime config.linkVector number delay request.due) ∧
      ∀ id router, mid.routers id = some router → ∀ i : ℕ, (config.linkVector id)[i]? = some number →
        Priced (2 * delay) (router.ports i) := by
  obtain ⟨router, found, coherent, admitted⟩ := m.admits inside calls
  rw [Simulator.dispatch_of_calls rfl calls] at dispatched
  obtain ⟨router', sent, found', routers, rfl, transmitted, -⟩ :=
    (m.wiredAs event.time).call_transmits wf.toWired dispatched
  cases found.symm.trans found'
  refine ⟨fun request member => ?_, fun other router' held i at_port => ?_⟩
  · rcases List.mem_append.mp member with new | last
    · obtain ⟨i, packet, sends, transmits⟩ := transmitted request new
      exact paced.call_events m inside calls sends transmits
    · -- behind what is sent only an alarm is set
      cases kind : event.kind <;> rw [kind] at calls <;> cases calls
      · cases last
      · cases last
      · rw [List.mem_singleton.mp last]
        trivial
  · rw [routers, Function.update_apply] at held
    split_ifs at held with here
    · subst here
      cases held
      refine (paced.ports _ router found i at_port).change (coherent.handle_port admitted i) ?_
      rintro now source dest time junk rfl
      obtain ⟨rfl, due⟩ := paced.arrived m inside calls rfl at_port
      exact sub32_of_stamp due event.time_lt
    · exact paced.ports other router' held i at_port

/-- A turn whose times fit and that does not change the delay of the link leaves it paced. -/
theorem step (paced : Paced config number delay h.simulator) (m : Mirrored config wf h)
    (stepped : h.step pops choice = some next) (unwrapped : next.Unwrapped)
    (keeps : ∀ turn ∈ next.log, turn.dispatched.kind.changesDelay number = false) :
    Paced config number delay next.simulator := by
  obtain ⟨-, turn, turned, log⟩ := History.step_cases stepped
  have keeps := keeps turn (log ▸ List.mem_append_right _ List.mem_cons_self)
  obtain ⟨mid, requests, dispatched, scheduled, routers, links, -⟩ := Simulator.turn_parts turned
  obtain ⟨facts, -⟩ := Simulator.turn_cases turned
  have inside : turn.dispatched ∈ h.simulator.eventQ := Array.mem_of_getElem? facts.top
  have fits : ∀ request ∈ requests, request.due < 2 ^ 32 := by
    intro request member
    obtain ⟨event, made, rfl, -⟩ := Simulator.exists_event h.simulator.allocated member
    exact unwrapped turn (log ▸ List.mem_append_right _ List.mem_cons_self) event (scheduled ▸ made)
  obtain ⟨link, found, delayed⟩ := paced.link
  have result : (∀ request ∈ requests, request.kind.OnTime config.linkVector number delay request.due) ∧
      ∀ id router, mid.routers id = some router → ∀ i : ℕ, (config.linkVector id)[i]? = some number →
        Priced (2 * delay) (router.ports i) := by
    cases calls : turn.dispatched.kind.calls turn.dispatched.time choice.junk with
    | some call => exact paced.call m inside dispatched calls
    | none =>
      rw [Simulator.routers_of_not_calls calls dispatched]
      refine ⟨fun request member => ?_, paced.ports⟩
      have onTime := paced.events _ inside
      cases kind : turn.dispatched.kind with
      | xmitPktEndToEnd | recvPkt | alarm =>
        rw [kind] at calls
        cases calls
      | changeDelay | linkDie | linkComeUp =>
        rw [Simulator.dispatch, kind] at dispatched
        obtain ⟨-, rfl, -⟩ := Simulator.onLink_cases dispatched
        cases member
      | xmitPktOnLink dest dport other pkt =>
        rw [kind] at onTime
        simp only [Simulator.dispatch, kind, Option.map_eq_some_iff] at dispatched
        obtain ⟨link', found', made⟩ := dispatched
        split_ifs at made
        · obtain ⟨-, rfl⟩ := Prod.mk.inj made
          have soon := fits _ member
          rw [List.mem_singleton.mp member] at soon ⊢
          intro at_port sent trips stamped
          obtain rfl : other = number := Option.some.inj (onTime.1.symm.trans at_port)
          cases found.symm.trans found'
          obtain ⟨due, narrow⟩ := onTime.2 rfl sent trips stamped
          refine ⟨?_, soon⟩
          rw [delayed, Event.time_eq narrow, due, Nat.add_mul, Nat.one_mul, Nat.add_assoc]
        · obtain ⟨-, rfl⟩ := Prod.mk.inj made
          cases member
  obtain ⟨net, mirrors, -⟩ := m
  obtain ⟨link', found', follows⟩ := Simulator.dispatch_link dispatched found
  refine ⟨⟨link', links ▸ found', (congrArg UInt32.toNat (follows.delay keeps)).trans delayed⟩,
    fun event present => ?_, routers ▸ result.2⟩
  rcases Simulator.incoming mirrors.heaped turned present with new | old
  · exact result.1 _ (Simulator.mem_events (scheduled ▸ new))
  · exact paced.events event old

end Paced

/-- The loop begins with probes that are on time, and ports that were never measured. -/
theorem Paced.boot {config : Config} (wf : config.WellFormed) {start : Simulator}
    (boots : config.boot = some start) {number : ℕ} {link : Link}
    (found : config.links[number]? = some link) : Paced config number link.delay.toNat start := by
  refine wf.boot_invariant (I := Paced config number link.delay.toNat) ?_ ?_ boots
  · refine ⟨⟨link, found, rfl⟩, fun event inside => ?_, fun _ _ none_ => by cases none_⟩
    rcases Simulator.mem_schedule inside with new | old
    · -- nothing in the file is a packet on a link
      have scripted := config.scripted _ new
      cases kind : event.kind <;> rw [kind] at scripted <;> cases scripted <;> trivial
    · cases Array.mem_def.mp old
  · rintro s id after requests paced started
    rw [started.eq]
    refine ⟨paced.link, fun event inside => ?_, fun other router held i at_port => ?_⟩
    · rcases Simulator.mem_schedule inside with new | old
      · rcases started.comes _ new with ⟨i, rcpt, port, other, -, -, back, same⟩ | ⟨type, same⟩
        · rw [show event.kind = _ from congrArg Request.kind same,
            show event.due = _ from congrArg Request.due same]
          refine ⟨back, fun _ time trips stamped => ?_⟩
          cases stamped
          rw [Nat.zero_mul, Nat.add_zero, started.globalTime]
          exact ⟨rfl, (Nat.le_add_right _ _).trans_lt wf.early⟩
        · rw [show event.kind = _ from congrArg Request.kind same]
          trivial
      · exact paced.events event old
    · simp only [Simulator.schedule, Function.update_apply] at held
      split_ifs at held
      · cases held
        exact .inr ⟨rfl, rfl⟩
      · exact paced.ports other router held i at_port

/-- While all times fit and the delay of a link does not change, its port at either end is measured
at twice the delay, unless it has not been measured yet or has expired. -/
theorem History.round_trip_measured {config : Config} (wf : config.WellFormed) {pops : Pop Event.time}
    {start : Simulator} (boots : config.boot = some start) {choices : List Choice} {final : History}
    (run : exec (History.step pops) ⟨start, []⟩ choices = some final) (unwrapped : final.Unwrapped)
    {number : ℕ} {link : Link} (found : config.links[number]? = some link)
    (keeps : final.KeepsDelay number) {id i : ℕ} {router : Router}
    (held : final.simulator.routers id = some router)
    (at_port : (config.linkVector id)[i]? = some number) :
    (router.ports i).cost = 2 * link.delay.toNat ∨
      (router.ports i).cost = 0 ∧ (router.ports i).connected = false := by
  have invariant : Mirrored config wf final ∧ (final.Unwrapped → final.KeepsDelay number →
      Paced config number link.delay.toNat final.simulator) := by
    refine exec_invariant (I := fun h => Mirrored config wf h ∧ (h.Unwrapped → h.KeepsDelay number →
      Paced config number link.delay.toNat h.simulator)) ?_
        ⟨.boot boots, fun _ _ => .boot wf boots found⟩ run
    rintro h choice next ⟨mirrored, paced⟩ stepped
    refine ⟨mirrored.step stepped, fun unwrapped keeps => ?_⟩
    obtain ⟨-, turn, -, log⟩ := History.step_cases stepped
    have fitted : h.Unwrapped := fun turn inside => unwrapped turn (log ▸ List.mem_append_left _ inside)
    have before : h.KeepsDelay number := fun event inside =>
      keeps event (dispatched_step log ▸ List.mem_append_left _ inside)
    exact (paced fitted before).step mirrored stepped unwrapped fun turn inside =>
      keeps _ (List.mem_map_of_mem inside)
  exact (invariant.2 unwrapped keeps).ports id router held i at_port

/-- Node 1 of the triangle has measured the link to node 2. -/
theorem triangle_measured : ∃ start final router, triangle.boot = some start ∧
    exec (History.step (Pop.binary Event.time)) ⟨start, []⟩ (List.replicate 24 ⟨0, 0⟩) = some final ∧
    final.simulator.routers 1 = some router ∧ (router.ports 0).connected = true ∧
    (router.ports 0).cost = 20 := by
  have ran : ((triangle.boot.bind fun start =>
      exec (History.step (Pop.binary Event.time)) ⟨start, []⟩ (List.replicate 24 ⟨0, 0⟩)).any
        fun final => decide final.Unwrapped && decide (final.KeepsDelay 0) &&
          (final.simulator.routers 1).any fun router => (router.ports 0).connected) = true := by
    decide +kernel
  obtain ⟨final, found, checked⟩ := (Option.any_eq_true _ _).mp ran
  obtain ⟨start, boots, run⟩ := Option.bind_eq_some_iff.mp found
  simp only [Bool.and_eq_true, decide_eq_true_eq] at checked
  obtain ⟨⟨unwrapped, keeps⟩, measured⟩ := checked
  obtain ⟨router, held, connected⟩ := (Option.any_eq_true _ _).mp measured
  refine ⟨start, final, router, boots, run, held, connected, ?_⟩
  have cost := History.round_trip_measured triangle_wellFormed boots run unwrapped
    (show triangle.links[0]? = some _ from rfl) keeps held
    (show (triangle.linkVector 1)[0]? = some 0 from rfl)
  rcases cost with measured | ⟨-, closed⟩
  · exact measured
  · rw [connected] at closed
    cases closed

end ComputerNetworks.Simulation
