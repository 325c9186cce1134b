import ComputerNetworks.Routing.Coherence
import ComputerNetworks.Routing.Sends

/-!
# A network of routers

Routers joined by links, and the packets under way. Packets are delivered in any
order and may be lost, which is also what happens on a dead link; the clock never
goes back. Every router of a network lives in the surroundings its site describes.
-/

namespace ComputerNetworks.Routing

open Lib

/-- A coherent router sends on its own ports only. -/
theorem Router.Coherent.sends_inside {site : Site} {r : Router} (h : r.Coherent site)
    {event : Event} (admitted : site.admits event = true) {i : ℕ} {packet : Packet}
    (sent : (i, packet) ∈ (r.handle event).2) : i < site.numPorts := by
  have after := (h.handle admitted).linked.numPorts
  have finished : ∀ {u : Update}, u.router = (r.handle event).1 → (i, packet) ∈ u.finish.2 →
      i < site.numPorts := by
    intro u same member
    obtain ⟨inside, -⟩ := Router.mem_finish member
    rwa [same, after] at inside
  cases event with
  | recv now port received junk =>
    cases received with
    | data source dest payload =>
      rw [Router.handle_data, Router.recvDATA] at sent
      split_ifs at sent
      · cases sent
      · cases forwards : r.forwardingTable[dest]? with
        | none =>
          rw [forwards] at sent
          cases sent
        | some hop =>
          -- the next hop of a route is a neighbour behind one of the ports
          rw [h.routed.agree, Option.map_eq_some_iff] at forwards
          obtain ⟨cell, found, rfl⟩ := forwards
          obtain ⟨direct, neighbor⟩ := h.routed.hops dest cell found List.not_mem_nil
          have agree := h.routed.agree dest
          rw [found, Option.map_some] at agree
          simp only [agree, neighbor] at sent
          cases List.mem_singleton.mp sent
          exact (Site.joins_iff.mp (h.linked.known _ _ neighbor)).1
    | ping source time =>
      rw [Router.handle_ping] at sent
      cases List.mem_singleton.mp sent
      exact (Site.joins_iff.mp admitted).1
    | pong source dest time => exact finished rfl sent
    | dv received => exact finished rfl sent
  | alarm now type =>
    cases type with
    | expire =>
      rw [Router.handle_expire] at sent
      split_ifs at sent with dv
      · exact finished (by rw [Router.handle_expire, if_pos dv]; rfl) sent
      · cases sent
    | pingPong =>
      rw [Router.handle_pingPong] at sent
      obtain ⟨j, inside, same⟩ := List.mem_map.mp sent
      cases same
      rw [← h.linked.numPorts]
      exact List.mem_range.mp inside
    | update =>
      rw [Router.handle_update] at sent
      dsimp only at sent
      split_ifs at sent
      · rw [← h.linked.numPorts]
        exact (Router.mem_sendDVUpdate.mp sent).1
      · cases sent

/-- The links of a network: `peer r i` is the router and the port at the other end of
port `i` of router `r`. No link joins a router to itself. -/
structure Topology where
  nodes : List ℕ
  numPorts : ℕ → ℕ
  protocolType : ProtocolType
  peer : ℕ → ℕ → Option (ℕ × ℕ)
  symm : ∀ r i s j, peer r i = some (s, j) → peer s j = some (r, i)
  inside : ∀ r i s j, peer r i = some (s, j) → i < numPorts r
  loopless : ∀ r i s j, peer r i = some (s, j) → s ≠ r

namespace Topology

variable (topology : Topology)

/-- The surroundings of a router. -/
def site (r : ℕ) : Site where
  numPorts := topology.numPorts r
  routerId := r
  protocolType := topology.protocolType
  neighbor i := (topology.peer r i).map Prod.fst
  loopless i same := by
    obtain ⟨⟨s, j⟩, peer, rfl⟩ := Option.map_eq_some_iff.mp same
    exact topology.loopless _ _ _ _ peer rfl

/-- Packets that `r` sends, each with the router and the port it will arrive at. -/
def emit (r : ℕ) (sends : List Send) : List (ℕ × ℕ × Packet) :=
  sends.filterMap fun send => (topology.peer r send.1).map fun end_ => (end_.1, end_.2, send.2)

end Topology

/-- The routers, the packets under way, and the time. -/
structure Network where
  routers : ℕ → Router
  flight : List (ℕ × ℕ × Packet)
  clock : ℕ

/-- What can happen next. -/
inductive NetworkAction
  /-- The packet at this position arrives. -/
  | deliver (k now junk : ℕ)
  /-- The packet at this position is lost. -/
  | lose (k : ℕ)
  /-- An alarm of a router goes off. -/
  | alarm (router now : ℕ) (type : AlarmType)
  /-- A DATA packet originates at a router, on `SPECIAL_PORT`. -/
  | originate (router now dest : ℕ) (payload : List UInt8)

namespace Network

variable (topology : Topology)

/-- A call at router `r`. -/
def call (net : Network) (r now : ℕ) (event : Event) : Network where
  routers := Function.update net.routers r ((net.routers r).handle event).1
  flight := net.flight ++ topology.emit r ((net.routers r).handle event).2
  clock := now

/-- The router and the call an action is about. -/
def event (net : Network) : NetworkAction → Option (ℕ × Event)
  | .deliver k now junk => net.flight[k]?.map fun (r, port, packet) => (r, .recv now port packet junk)
  | .lose _ => none
  | .alarm r now type => some (r, .alarm now type)
  | .originate r now dest payload => some (r, .recv now 0xffff (.data r dest payload) 0)

/-- The transition function. -/
def step (net : Network) : NetworkAction → Option Network
  | .deliver k now junk =>
    if net.clock ≤ now then
      (net.event (.deliver k now junk)).map fun (r, event) =>
        { net with flight := net.flight.eraseIdx k }.call topology r now event
    else none
  | .lose k => some { net with flight := net.flight.eraseIdx k }
  | .alarm r now type => if net.clock ≤ now then some (net.call topology r now (.alarm now type)) else none
  | .originate r now dest payload =>
    if net.clock ≤ now then
      some (net.call topology r now (.recv now 0xffff (.data r dest payload) 0))
    else none

/-- Every router after `init`, with its first PINGs under way. -/
def start (clock : ℕ) : Network where
  routers r := (topology.site r).start
  flight := topology.nodes.flatMap fun r =>
    topology.emit r ((topology.site r).start.generatePingPongMsg clock)
  clock := clock

/-- Routers are coherent, and packets arrive where the router that built them is. -/
structure Sound (net : Network) : Prop where
  coherent : ∀ r, (net.routers r).Coherent (topology.site r)
  flight : ∀ r port packet, (r, port, packet) ∈ net.flight →
    ∀ source, packet.builder = some source → (topology.site r).joins port source = true

variable {topology} {net net' : Network}

theorem mem_emit {r s j : ℕ} {packet : Packet} {sends : List Send}
    (member : (s, j, packet) ∈ topology.emit r sends) :
    (topology.site s).joins j r = true ∧ ∃ i, (i, packet) ∈ sends := by
  obtain ⟨⟨i, p⟩, sent, emitted⟩ := List.mem_filterMap.mp member
  obtain ⟨⟨t, k⟩, peer, same⟩ := Option.map_eq_some_iff.mp emitted
  simp only [Prod.mk.injEq] at same
  obtain ⟨rfl, rfl, rfl⟩ := same
  have back := topology.symm r i t k peer
  refine ⟨Site.joins_iff.mpr ⟨topology.inside _ _ _ _ back, ?_⟩, i, sent⟩
  simp [Topology.site, back]

/-- A call that the site of its router admits. -/
theorem Sound.call (h : net.Sound topology) {r now : ℕ} {event : Event}
    (admitted : (topology.site r).admits event = true) : (net.call topology r now event).Sound topology := by
  have after := (h.coherent r).handle admitted
  constructor
  · intro s
    by_cases here : s = r
    · subst here
      simpa [Network.call] using after
    · simpa [Network.call, here] using h.coherent s
  · intro s j packet member source builder
    rcases List.mem_append.mp member with old | new
    · exact h.flight s j packet old source builder
    · obtain ⟨joins, i, sent⟩ := mem_emit new
      rw [← Router.builder_of_sent sent builder, after.linked.routerId]
      exact joins

/-- Losing packets does no harm. -/
theorem Sound.erase (h : net.Sound topology) (k : ℕ) :
    ({ net with flight := net.flight.eraseIdx k } : Network).Sound topology :=
  ⟨h.coherent, fun r port packet member =>
    h.flight r port packet ((List.eraseIdx_sublist net.flight k).subset member)⟩

/-- The calls of a network are admitted by the sites. -/
theorem Sound.admits (h : net.Sound topology) {action : NetworkAction} {r : ℕ} {event : Event}
    (called : net.event action = some (r, event)) : (topology.site r).admits event = true := by
  cases action with
  | deliver k now junk =>
    obtain ⟨⟨s, port, packet⟩, found, same⟩ := Option.map_eq_some_iff.mp called
    simp only [Prod.mk.injEq] at same
    obtain ⟨rfl, rfl⟩ := same
    have arrives := h.flight s port packet (List.mem_of_getElem? found)
    cases packet with
    | data => rfl
    | ping source => exact arrives source rfl
    | pong source => exact arrives source rfl
    | dv received => exact arrives received.source rfl
  | lose => cases called
  | alarm =>
    cases called
    rfl
  | originate =>
    cases called
    rfl

/-- A step is a call at one router, or loses a packet. -/
theorem step_cases {action : NetworkAction} (next : net.step topology action = some net') :
    (∃ base : Network, ∃ r now event, base.routers = net.routers ∧
      (∀ entry ∈ base.flight, entry ∈ net.flight) ∧ net.event action = some (r, event) ∧
        net' = base.call topology r now event) ∨
    net.event action = none ∧ ∃ k, net' = { net with flight := net.flight.eraseIdx k } := by
  cases action with
  | deliver k now junk =>
    simp only [step, Option.ite_none_right_eq_some, Option.map_eq_some_iff] at next
    obtain ⟨-, ⟨r, event⟩, called, rfl⟩ := next
    exact .inl ⟨{ net with flight := net.flight.eraseIdx k }, r, now, event, rfl,
      fun _ member => (List.eraseIdx_sublist _ k).subset member, called, rfl⟩
  | lose k =>
    cases next
    exact .inr ⟨rfl, k, rfl⟩
  | alarm r now type =>
    simp only [step, Option.ite_none_right_eq_some, Option.some.injEq] at next
    exact .inl ⟨net, r, now, _, rfl, fun _ => id, rfl, next.2.symm⟩
  | originate r now dest payload =>
    simp only [step, Option.ite_none_right_eq_some, Option.some.injEq] at next
    exact .inl ⟨net, r, now, _, rfl, fun _ => id, rfl, next.2.symm⟩

theorem Sound.step (h : net.Sound topology) {action : NetworkAction}
    (next : net.step topology action = some net') : net'.Sound topology := by
  rcases step_cases next with ⟨base, r, now, event, routers, flight, called, rfl⟩ | ⟨-, k, rfl⟩
  · have sound : base.Sound topology :=
      ⟨fun s => routers ▸ h.coherent s, fun s j packet member => h.flight s j packet (flight _ member)⟩
    exact sound.call (h.admits called)
  · exact h.erase k

theorem Sound.start (topology : Topology) (clock : ℕ) : (start topology clock).Sound topology := by
  refine ⟨fun r => .start _, fun s j packet member source builder => ?_⟩
  obtain ⟨r, -, emitted⟩ := List.mem_flatMap.mp member
  obtain ⟨joins, i, sent⟩ := mem_emit emitted
  obtain ⟨port, -, same⟩ := List.mem_map.mp sent
  cases same
  cases builder
  exact joins

/-- Routers 1 and 2, joined by their ports 0. -/
def oneLink : Topology where
  nodes := [1, 2]
  numPorts _ := 1
  protocolType := .dv
  peer r i := if r = 1 ∧ i = 0 then some (2, 0) else if r = 2 ∧ i = 0 then some (1, 0) else none
  symm r i s j h := by split_ifs at h ⊢ <;> simp_all
  inside r i s j h := by split_ifs at h <;> omega
  loopless r i s j h := by
    split_ifs at h with one two
    · obtain ⟨rfl, rfl⟩ := Prod.mk.inj (Option.some.inj h)
      omega
    · obtain ⟨rfl, rfl⟩ := Prod.mk.inj (Option.some.inj h)
      omega

end Network

end ComputerNetworks.Routing
