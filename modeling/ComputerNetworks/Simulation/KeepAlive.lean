import ComputerNetworks.Simulation.RoundTrip

/-!
# Links that stay alive

A router takes a link for dead when no PONG has come in on it for 15 s. It sends a PING every
10 s; on a link that loses nothing and keeps its delay each of them is answered, and the PONGs
come in 10 s apart. Wherever a PING or its PONG is, the next one is under way behind it or
its alarm is set. So such a link is never taken for dead, and from the first round trip on
both of its ends know it.
-/

namespace ComputerNetworks.Simulation

open Lib Routing

namespace Simulator

/-- An event for this request is in the queue. -/
def Queued (s : Simulator) (request : Request) : Prop := ∃ event ∈ s.eventQ, event.toRequest = request

/-- What a turn that schedules `requests` does to the queue. -/
structure Requeued (s after : Simulator) (event : Event) (requests : List Request) : Prop where
  posts : ∀ request ∈ requests, after.Queued request
  stays : ∀ request, s.Queued request → request = event.toRequest ∨ after.Queued request
  comes : ∀ request, after.Queued request → request ∈ requests ∨ s.Queued request

variable {s after : Simulator} {requests : List Request}

/-- A turn all of whose times fit takes out its own event and no other. -/
theorem turn_perm {pops : Pop Event.time} {choice : Choice} {turn : Turn}
    (heaped : Heaped Event.time s.eventQ) (next : s.turn pops choice = some (after, turn))
    (fits : ∀ event ∈ turn.scheduled, event.due < 2 ^ 32) :
    (turn.dispatched :: after.eventQ.toList).Perm (turn.scheduled ++ s.eventQ.toList) := by
  obtain ⟨-, kept, -, ⟨all, -, perm⟩ | ⟨lost, all, ⟨-, wide⟩, -⟩⟩ := turn_queue heaped next
  · exact all ▸ perm
  · have narrow := fits lost (all ▸ List.mem_append_right _ List.mem_cons_self)
    exact absurd wide narrow.not_ge

theorem turn_requeued {pops : Pop Event.time} {choice : Choice} {turn : Turn}
    (heaped : Heaped Event.time s.eventQ) (next : s.turn pops choice = some (after, turn))
    (scheduled : turn.scheduled = events s.allocated requests)
    (numbered : turn.dispatched.serial < s.allocated)
    (fits : ∀ event ∈ turn.scheduled, event.due < 2 ^ 32) :
    Requeued s after turn.dispatched requests := by
  have perm := turn_perm heaped next fits
  have into : ∀ event, event ∈ turn.scheduled ∨ event ∈ s.eventQ →
      event = turn.dispatched ∨ event ∈ after.eventQ := by
    intro event either
    rw [Array.mem_def, ← List.mem_append] at either
    exact (List.mem_cons.mp (perm.symm.subset either)).imp id Array.mem_def.mpr
  refine ⟨fun request member => ?_, ?_, ?_⟩
  · obtain ⟨event, inside, rfl, later⟩ := exists_event s.allocated member
    rcases into event (.inl (scheduled ▸ inside)) with same | present
    · rw [same] at later
      omega
    · exact ⟨event, present, rfl⟩
  · rintro request ⟨event, inside, rfl⟩
    rcases into event (.inr inside) with same | present
    · exact .inl (congrArg Event.toRequest same)
    · exact .inr ⟨event, present, rfl⟩
  · rintro request ⟨event, inside, rfl⟩
    have either := perm.subset (List.mem_cons_of_mem _ (Array.mem_def.mp inside))
    rcases List.mem_append.mp either with new | old
    · exact .inl (mem_events (scheduled ▸ new))
    · exact .inr ⟨event, Array.mem_def.mpr old, rfl⟩

end Simulator

/-- One end of a link: port `i` of node `id`, joined to port `j` of node `n`. -/
structure Lane where
  id : ℕ
  i : ℕ
  n : ℕ
  j : ℕ
  number : ℕ

namespace Lane

/-- The lane is one of the configuration, and no other port leads to the same node. -/
structure Of (config : Config) (lane : Lane) : Prop where
  peer : config.peer lane.id lane.i = some (lane.n, lane.j)
  near : (config.linkVector lane.id)[lane.i]? = some lane.number
  far : (config.linkVector lane.n)[lane.j]? = some lane.number
  only : ∀ k port, config.peer lane.id k = some (lane.n, port) → k = lane.i

variable (lane : Lane) (delay sent : ℕ)

/-- A PING stamped `sent`, or the PONG that answers it, on its way. -/
inductive Leg : Request → Prop
  | ping : Leg ⟨sent, .xmitPktOnLink lane.n lane.j lane.number (.ping lane.id sent)⟩
  | pinged : Leg ⟨sent + delay, .recvPkt lane.n lane.j (.ping lane.id sent)⟩
  | pong : Leg ⟨sent + delay, .xmitPktOnLink lane.id lane.i lane.number (.pong lane.n lane.id sent)⟩
  | ponged : Leg ⟨sent + 2 * delay, .recvPkt lane.id lane.i (.pong lane.n lane.id sent)⟩

/-- The alarm that sends a PING at `sent`. -/
def alarm : Request := ⟨sent, .alarm lane.id .pingPong⟩

/-- The arrival of the PONG. -/
def arrival : Request := ⟨sent + 2 * delay, .recvPkt lane.id lane.i (.pong lane.n lane.id sent)⟩

/-- The stamp of a PING from this end of the link, or of a PONG to it. -/
def probe : EventKind → Option ℕ
  | .xmitPktOnLink dest dport other (.ping _ sent) =>
    if dest = lane.n ∧ dport = lane.j ∧ other = lane.number then some sent else none
  | .recvPkt dest dport (.ping _ sent) => if dest = lane.n ∧ dport = lane.j then some sent else none
  | .xmitPktOnLink dest dport other (.pong _ _ sent) =>
    if dest = lane.id ∧ dport = lane.i ∧ other = lane.number then some sent else none
  | .recvPkt dest dport (.pong _ _ sent) => if dest = lane.id ∧ dport = lane.i then some sent else none
  | _ => none

/-- A PING or its PONG is under way. -/
def UnderWay (s : Simulator) : Prop := ∃ request, lane.Leg delay sent request ∧ s.Queued request

/-- The next PING is under way, or its alarm is set. -/
def Next (s : Simulator) : Prop :=
  lane.UnderWay delay (sent + 10000) s ∨ s.Queued (lane.alarm (sent + 10000))

variable {lane delay sent}

theorem Leg.due {request : Request} (leg : lane.Leg delay sent request) :
    sent ≤ request.due ∧ request.due ≤ sent + 2 * delay := by
  cases leg <;> dsimp only <;> omega

/-- What comes next is in the queue. -/
theorem Next.request {s : Simulator} (next : lane.Next delay sent s) :
    ∃ request, s.Queued request ∧ request.due ≤ sent + 10000 + 2 * delay := by
  rcases next with ⟨request, leg, queued⟩ | pending
  · exact ⟨request, queued, leg.due.2⟩
  · exact ⟨_, pending, Nat.le_add_right _ _⟩

/-- A PING that comes in is a delay older than its stamp. -/
theorem Leg.of_pinged {request : Request} (leg : lane.Leg delay sent request) {src : ℕ}
    (kind : request.kind = .recvPkt lane.n lane.j (.ping src sent)) :
    request.due = sent + delay ∧ src = lane.id := by
  cases leg <;> simp_all

/-- A PONG that comes in is two delays older than its stamp. -/
theorem Leg.of_ponged {request : Request} (leg : lane.Leg delay sent request) {src dest : ℕ}
    (kind : request.kind = .recvPkt lane.id lane.i (.pong src dest sent)) :
    request.due = sent + 2 * delay ∧ src = lane.n ∧ dest = lane.id := by
  cases leg <;> simp_all

/-- A probe that crosses the link arrives a delay later. -/
theorem Leg.crosses {due dest dport other : ℕ} {pkt : Packet}
    (leg : lane.Leg delay sent ⟨due, .xmitPktOnLink dest dport other pkt⟩) :
    lane.Leg delay sent ⟨due + delay, .recvPkt dest dport pkt⟩ := by
  cases leg with
  | ping => exact .pinged
  | pong =>
    rw [Nat.add_assoc, ← Nat.two_mul]
    exact .ponged

theorem Leg.probe {request : Request} (leg : lane.Leg delay sent request) :
    lane.probe request.kind = some sent := by
  cases leg <;> simp [Lane.probe]

theorem Leg.unscripted {request : Request} (leg : lane.Leg delay sent request) :
    request.kind.scripted = false := by
  cases leg <;> rfl

end Lane

/-- The link is alive, loses nothing and has its delay; the probes on it are where they should
be, each with the next one behind it; and when the port is connected, a probe is behind the
one that came in last. -/
structure Kept (config : Config) (lane : Lane) (delay : ℕ) (s : Simulator) : Prop where
  link : ∃ link, s.links[lane.number]? = some link ∧ link.delay.toNat = delay ∧ link.isAlive = true ∧
    link.tenLossProb ≤ 0
  clock : ∀ request, s.Queued request → s.globalTime ≤ request.due % 2 ^ 32
  narrow : ∀ request, s.Queued request → request.kind.scripted = false → request.due < 2 ^ 32
  lawful : ∀ request, s.Queued request → ∀ sent, lane.probe request.kind = some sent →
    lane.Leg delay sent request
  follows : ∀ sent, lane.UnderWay delay sent s → lane.Next delay sent s
  port : ∀ router, s.routers lane.id = some router → (router.ports lane.i).connected = true →
    ∃ sent, (router.ports lane.i).updated = sent + 2 * delay ∧ lane.Next delay sent s ∧
      sent + 2 * delay ≤ s.globalTime
  first : ∀ router, s.routers lane.id = some router → (router.ports lane.i).connected = true ∨
    lane.UnderWay delay config.globalTime s

/-- One turn of the loop, on its event and with what it schedules. -/
structure Going (config : Config) (wf : config.WellFormed) (h : History) (after : Simulator)
    (event : Event) (choice : Choice) (requests : List Request) : Prop where
  mirrored : Mirrored config wf h
  inside : event ∈ h.simulator.eventQ
  dispatched : ∃ mid, ({ h.simulator with globalTime := event.time } : Simulator).dispatch choice event =
    some (mid, requests) ∧ after.routers = mid.routers ∧ after.links = mid.links
  requeued : Simulator.Requeued h.simulator after event requests
  globalTime : after.globalTime = event.time
  earliest : ∀ request, h.simulator.Queued request → event.time ≤ request.due % 2 ^ 32
  later : ∀ request, after.Queued request → event.time ≤ request.due % 2 ^ 32
  fits : ∀ request ∈ requests, request.due < 2 ^ 32

namespace Going

variable {config : Config} {wf : config.WellFormed} {h : History} {after : Simulator} {event : Event}
  {choice : Choice} {requests : List Request} {lane : Lane} {delay sent : ℕ}

/-- A turn that calls a router. -/
theorem calls (g : Going config wf h after event choice requests) {id : ℕ} {called : Routing.Event}
    {rest : List Request}
    (calls : event.kind.calls event.time choice.junk = some (id, called, rest)) :
    ∃ router sent, h.simulator.routers id = some router ∧ router.Coherent (wf.topology.site id) ∧
      (wf.topology.site id).admits called = true ∧
      after.routers = Function.update h.simulator.routers id (some (router.handle called).1) ∧
        requests = sent ++ rest ∧
          (∀ request ∈ sent, ∃ i packet, (i, packet) ∈ (router.handle called).2 ∧
            Transmits config event.time id i packet request) ∧
          ∀ i packet, (i, packet) ∈ (router.handle called).2 → ∃ request ∈ sent,
            Transmits config event.time id i packet request := by
  obtain ⟨router, found, coherent, admitted⟩ := g.mirrored.admits g.inside calls
  obtain ⟨mid, dispatched, routers, -⟩ := g.dispatched
  rw [Simulator.dispatch_of_calls rfl calls] at dispatched
  obtain ⟨router', sent, found', after', split, transmitted⟩ :=
    (g.mirrored.wiredAs event.time).call_transmits wf.toWired dispatched
  cases found.symm.trans found'
  exact ⟨router, sent, found, coherent, admitted, routers.trans after', split, transmitted⟩

end Going

namespace Lane

variable {lane : Lane} {sent : ℕ}

/-- The probes of a lane. -/
theorem probe_eq_some {kind : EventKind} (probe : lane.probe kind = some sent) :
    (∃ src, kind = .xmitPktOnLink lane.n lane.j lane.number (.ping src sent)) ∨
    (∃ src, kind = .recvPkt lane.n lane.j (.ping src sent)) ∨
    (∃ src dest, kind = .xmitPktOnLink lane.id lane.i lane.number (.pong src dest sent)) ∨
    ∃ src dest, kind = .recvPkt lane.id lane.i (.pong src dest sent) := by
  unfold Lane.probe at probe
  split at probe
  · split_ifs at probe with here
    obtain ⟨rfl, rfl, rfl⟩ := here
    cases probe
    exact .inl ⟨_, rfl⟩
  · split_ifs at probe with here
    obtain ⟨rfl, rfl⟩ := here
    cases probe
    exact .inr (.inl ⟨_, rfl⟩)
  · split_ifs at probe with here
    obtain ⟨rfl, rfl, rfl⟩ := here
    cases probe
    exact .inr (.inr (.inl ⟨_, _, rfl⟩))
  · split_ifs at probe with here
    obtain ⟨rfl, rfl⟩ := here
    cases probe
    exact .inr (.inr (.inr ⟨_, _, rfl⟩))
  · cases probe

/-- An arrival that is a probe of the lane has crossed its link, as the same probe. -/
theorem Of.probe_crossing {config : Config} (of : lane.Of config) {dest dport other : ℕ} {pkt : Packet}
    (probe : lane.probe (.recvPkt dest dport pkt) = some sent)
    (at_port : (config.linkVector dest)[dport]? = some other) :
    other = lane.number ∧ lane.probe (.xmitPktOnLink dest dport other pkt) = some sent := by
  rcases probe_eq_some probe with ⟨src, bad⟩ | ⟨src, same⟩ | ⟨src, dst, bad⟩ | ⟨src, dst, same⟩
  · cases bad
  · cases same
    obtain rfl : other = lane.number := Option.some.inj (at_port.symm.trans of.far)
    exact ⟨rfl, by simp [Lane.probe]⟩
  · cases bad
  · cases same
    obtain rfl : other = lane.number := Option.some.inj (at_port.symm.trans of.near)
    exact ⟨rfl, by simp [Lane.probe]⟩

end Lane

namespace Transmits

variable {config : Config} {time id i : ℕ} {packet : Packet} {request : Request}

/-- What arrives at a port was sent from the other end of its link. -/
theorem sender (h : Transmits config time id i packet request) (wired : config.Wired)
    {rcpt port other a b : ℕ} {pkt : Packet} (kind : request.kind = .xmitPktOnLink rcpt port other pkt)
    (peer : config.peer rcpt port = some (a, b)) : id = a ∧ i = b ∧ packet = pkt ∧ request.due = time := by
  obtain ⟨rcpt', port', number, joined, -, -, rfl⟩ := h
  cases kind
  have back := wired.peer_symm joined
  rw [peer, Option.some.injEq, Prod.mk.injEq] at back
  exact ⟨back.1.symm, back.2.symm, rfl, rfl⟩

/-- What is sent on a port goes to the other end of its link. -/
theorem eq (h : Transmits config time id i packet request) {n j number : ℕ}
    (peer : config.peer id i = some (n, j)) (at_port : (config.linkVector id)[i]? = some number) :
    request = ⟨time, .xmitPktOnLink n j number packet⟩ := by
  obtain ⟨rcpt, port, number', joined, here, -, rfl⟩ := h
  obtain ⟨rfl, rfl⟩ := Prod.mk.inj (Option.some.inj (joined.symm.trans peer))
  rw [Option.some.inj (here.symm.trans at_port)]

/-- A probe of the lane that is transmitted is a PING of the near end or a PONG of the far end. -/
theorem probe (h : Transmits config time id i packet request) (wf : config.WellFormed) {lane : Lane}
    (of : lane.Of config) {sent : ℕ} (probe : lane.probe request.kind = some sent) :
    (id = lane.id ∧ i = lane.i ∧ ∃ src, packet = .ping src sent ∧
      request = ⟨time, .xmitPktOnLink lane.n lane.j lane.number (.ping src sent)⟩) ∨
    (id = lane.n ∧ i = lane.j ∧ ∃ src dest, packet = .pong src dest sent ∧
      request = ⟨time, .xmitPktOnLink lane.id lane.i lane.number (.pong src dest sent)⟩) := by
  have back := wf.peer_symm of.peer
  rcases Lane.probe_eq_some probe with ⟨src, kind⟩ | ⟨src, kind⟩ | ⟨src, dest, kind⟩ | ⟨src, dest, kind⟩
  · obtain ⟨rfl, rfl, rfl, -⟩ := h.sender wf.toWired kind back
    exact .inl ⟨rfl, rfl, src, rfl, h.eq of.peer of.near⟩
  · obtain ⟨_, _, _, -, -, -, rfl⟩ := h
    cases kind
  · obtain ⟨rfl, rfl, rfl, -⟩ := h.sender wf.toWired kind of.peer
    exact .inr ⟨rfl, rfl, src, dest, rfl, h.eq back of.far⟩
  · obtain ⟨_, _, _, -, -, -, rfl⟩ := h
    cases kind

end Transmits

namespace Going

variable {config : Config} {wf : config.WellFormed} {h : History} {after : Simulator} {event : Event}
  {choice : Choice} {requests : List Request} {lane : Lane} {delay sent : ℕ}

/-- A probe that is new where no router was called has crossed the link. -/
theorem fresh_crossed (g : Going config wf h after event choice requests) (of : lane.Of config)
    (kept : Kept config lane delay h.simulator) (paced : Paced config lane.number delay h.simulator)
    (quiet : event.kind.calls event.time choice.junk = none)
    {request : Request} (member : request ∈ requests) (probe : lane.probe request.kind = some sent) :
    lane.Leg delay sent request ∧ lane.UnderWay delay sent h.simulator := by
  have queued : h.simulator.Queued event.toRequest := ⟨event, g.inside, rfl⟩
  obtain ⟨mid, dispatched, -⟩ := g.dispatched
  cases kind : event.kind with
  | xmitPktEndToEnd | recvPkt | alarm =>
    rw [kind] at quiet
    cases quiet
  | changeDelay | linkDie | linkComeUp =>
    rw [Simulator.dispatch, kind] at dispatched
    obtain ⟨-, rfl, -⟩ := Simulator.onLink_cases dispatched
    cases member
  | xmitPktOnLink dest dport other pkt =>
    have same : event.toRequest = ⟨event.due, .xmitPktOnLink dest dport other pkt⟩ := by rw [← kind]
    have onTime := paced.events _ g.inside
    rw [kind] at onTime
    rw [same] at queued
    have narrow := kept.narrow _ queued rfl
    have time : event.time = event.due := Event.time_eq narrow
    -- the link that was crossed is the lane's, so its delay is the one of the lane
    simp only [Simulator.dispatch, kind, Option.map_eq_some_iff] at dispatched
    obtain ⟨link, found, made⟩ := dispatched
    obtain ⟨link', found', delayed, -⟩ := kept.link
    split_ifs at made
    · obtain ⟨-, rfl⟩ := Prod.mk.inj made
      rw [List.mem_singleton.mp member] at probe ⊢
      obtain ⟨rfl, crossing⟩ := of.probe_crossing probe onTime.1
      cases found.symm.trans found'
      have leg := kept.lawful _ queued sent crossing
      rw [time, delayed]
      exact ⟨leg.crosses, _, leg, queued⟩
    · obtain ⟨-, rfl⟩ := Prod.mk.inj made
      cases member

/-- A probe that a call transmits is a PING from its alarm, or the PONG for a PING that came in. -/
theorem fresh_sent (g : Going config wf h after event choice requests) (of : lane.Of config)
    (kept : Kept config lane delay h.simulator) {id i : ℕ} {called : Routing.Event} {rest : List Request}
    (calls : event.kind.calls event.time choice.junk = some (id, called, rest)) {router : Router}
    (coherent : router.Coherent (wf.topology.site id)) {packet : Packet}
    (sends : (i, packet) ∈ (router.handle called).2) {request : Request}
    (transmits : Transmits config event.time id i packet request)
    (probe : lane.probe request.kind = some sent) :
    lane.Leg delay sent request ∧
      (lane.UnderWay delay sent h.simulator ∨ event.toRequest = lane.alarm sent) := by
  have queued : h.simulator.Queued event.toRequest := ⟨event, g.inside, rfl⟩
  have lawful := kept.lawful _ queued
  have narrow := kept.narrow _ queued
  have routerId : router.routerId = id := coherent.linked.routerId
  have origin := Router.origin_of_sent sends
  rcases transmits.probe wf of probe with ⟨rfl, rfl, src, rfl, rfl⟩ | ⟨rfl, rfl, src, dest, rfl, rfl⟩
  · -- a PING, which the alarm of the near end sends
    cases origin with
    | ping alarm =>
      obtain ⟨kind, rfl, -⟩ := EventKind.calls_alarm (alarm ▸ calls)
      have time : event.time = event.due := Event.time_eq (narrow (by rw [kind]; rfl))
      rw [routerId]
      refine ⟨.ping, .inr ?_⟩
      rw [Lane.alarm, time, ← kind]
  · -- a PONG, which answers a PING at the far end
    cases origin with
    | pong ping =>
      obtain ⟨kind, -⟩ := g.mirrored.received g.inside calls ping (by simp)
      rw [kind] at lawful narrow
      have leg := lawful sent (by simp [Lane.probe])
      obtain ⟨past, rfl⟩ := leg.of_pinged kind
      have time : event.time = event.due := Event.time_eq (narrow rfl)
      rw [routerId, time, past]
      exact ⟨.pong, .inl ⟨_, leg, queued⟩⟩

/-- A probe that is new is the one an alarm sends, or one that was under way before. -/
theorem fresh (g : Going config wf h after event choice requests) (of : lane.Of config)
    (kept : Kept config lane delay h.simulator) (paced : Paced config lane.number delay h.simulator)
    {request : Request} (member : request ∈ requests) (probe : lane.probe request.kind = some sent) :
    lane.Leg delay sent request ∧
      (lane.UnderWay delay sent h.simulator ∨ event.toRequest = lane.alarm sent) := by
  cases calls : event.kind.calls event.time choice.junk with
  | none => exact (g.fresh_crossed of kept paced calls member probe).imp_right .inl
  | some call =>
    obtain ⟨id, called, rest⟩ := call
    obtain ⟨router, new, -, coherent, -, -, rfl, transmitted, -⟩ := g.calls calls
    rcases List.mem_append.mp member with own | last
    · obtain ⟨i, packet, sends, transmits⟩ := transmitted request own
      exact g.fresh_sent of kept calls coherent sends transmits probe
    · -- what is set again is an alarm
      cases kind : event.kind <;> rw [kind] at calls <;> cases calls
      · cases last
      · cases last
      · rw [List.mem_singleton.mp last] at probe
        cases probe

/-- A transmission on a link of the lane that is alive and loses nothing arrives. -/
theorem passes (g : Going config wf h after event choice requests)
    (kept : Kept config lane delay h.simulator) {dest dport : ℕ} {pkt : Packet}
    (kind : event.kind = .xmitPktOnLink dest dport lane.number pkt) :
    requests = [⟨event.time + delay, .recvPkt dest dport pkt⟩] := by
  obtain ⟨mid, dispatched, -⟩ := g.dispatched
  obtain ⟨link, found, delayed, alive, lossless⟩ := kept.link
  simp only [Simulator.dispatch, kind, Option.map_eq_some_iff] at dispatched
  obtain ⟨link', found', made⟩ := dispatched
  cases found.symm.trans found'
  have drawn : link.tenLossProb ≤ ((choice.draw % 10 : ℕ) : ℚ) := lossless.trans (Nat.cast_nonneg _)
  rw [if_pos ⟨alive, drawn⟩, delayed] at made
  exact (Prod.mk.inj made).2.symm

/-- A probe that is under way stays under way until its PONG comes in. -/
theorem onward (g : Going config wf h after event choice requests) (of : lane.Of config)
    (kept : Kept config lane delay h.simulator) (under : lane.UnderWay delay sent h.simulator) :
    lane.UnderWay delay sent after ∨ event.toRequest = lane.arrival delay sent := by
  obtain ⟨request, leg, queued⟩ := under
  rcases g.requeued.stays request queued with same | waits
  · have narrow := kept.narrow _ queued leg.unscripted
    rw [same] at narrow
    have time : event.time = event.due := Event.time_eq narrow
    have kind : request.kind = event.kind := congrArg Request.kind same
    have due : request.due = event.due := congrArg Request.due same
    cases leg with
    | ping =>
      have arrives := g.passes kept kind.symm
      exact .inl ⟨_, .pinged, g.requeued.posts _ (by rw [arrives, time, ← due]; exact List.mem_singleton_self _)⟩
    | pinged =>
      -- the far end answers the PING
      have calls : event.kind.calls event.time choice.junk =
          some (lane.n, .recv event.time lane.j (.ping lane.id sent) choice.junk, []) := by
        rw [← kind]
        rfl
      obtain ⟨router, own, -, coherent, -, -, rfl, -, transmitted⟩ := g.calls calls
      have routerId : router.routerId = lane.n := coherent.linked.routerId
      obtain ⟨request, member, transmits⟩ := transmitted lane.j (.pong router.routerId lane.id sent)
        (by rw [Router.handle_ping]; exact List.mem_singleton_self _)
      have back := wf.peer_symm of.peer
      rw [transmits.eq back of.far, routerId, time, ← due] at member
      exact .inl ⟨_, .pong, g.requeued.posts _ (List.mem_append_left _ member)⟩
    | pong =>
      have arrives := g.passes kept kind.symm
      refine .inl ⟨_, .ponged, g.requeued.posts _ ?_⟩
      rw [arrives, time, ← due]
      dsimp only
      rw [Nat.add_assoc, ← Nat.two_mul]
      exact List.mem_singleton_self _
    | ponged => exact .inr same.symm
  · exact .inl ⟨request, leg, waits⟩

/-- The alarm for a PING sends it, and is set again. -/
theorem rings (g : Going config wf h after event choice requests) (of : lane.Of config)
    (kept : Kept config lane delay h.simulator) (same : event.toRequest = lane.alarm sent) :
    lane.UnderWay delay sent after ∧ after.Queued (lane.alarm (sent + 10000)) := by
  have kind : event.kind = .alarm lane.id .pingPong := congrArg Request.kind same
  have due : event.due = sent := congrArg Request.due same
  have narrow := kept.narrow _ ⟨event, g.inside, rfl⟩ (by rw [kind]; rfl)
  have time : event.time = sent := (Event.time_eq narrow).trans due
  have calls : event.kind.calls event.time choice.junk =
      some (lane.id, .alarm event.time .pingPong, [lane.alarm (sent + 10000)]) := by
    rw [kind, time]
    rfl
  obtain ⟨router, own, -, coherent, -, -, rfl, -, transmitted⟩ := g.calls calls
  have routerId : router.routerId = lane.id := coherent.linked.routerId
  have inside : lane.i < router.numPorts := by
    rw [coherent.linked.numPorts]
    exact (List.getElem?_eq_some_iff.mp of.near).1
  obtain ⟨request, member, transmits⟩ := transmitted lane.i (.ping router.routerId event.time)
    (List.mem_map.mpr ⟨lane.i, List.mem_range.mpr inside, rfl⟩)
  rw [transmits.eq of.peer of.near, routerId, time] at member
  exact ⟨⟨_, .ping, g.requeued.posts _ (List.mem_append_left _ member)⟩,
    g.requeued.posts _ (List.mem_append_right _ (List.mem_singleton_self _))⟩

/-- What comes next stays so, unless it comes in. -/
theorem next (g : Going config wf h after event choice requests) (of : lane.Of config)
    (kept : Kept config lane delay h.simulator) (next : lane.Next delay sent h.simulator) :
    lane.Next delay sent after ∨ event.toRequest = lane.arrival delay (sent + 10000) := by
  rcases next with under | pending
  · exact (g.onward of kept under).imp .inl id
  · rcases g.requeued.stays _ pending with same | waits
    · exact .inl (.inl (g.rings of kept same.symm).1)
    · exact .inl (.inr waits)

/-- A port of the lane that is connected is young when an event is dispatched. -/
theorem young (g : Going config wf h after event choice requests)
    (kept : Kept config lane delay h.simulator) {router : Router}
    (found : h.simulator.routers lane.id = some router)
    (connected : (router.ports lane.i).connected = true) :
    sub32 event.time (router.ports lane.i).updated ≤ 10000 := by
  obtain ⟨sent, updated, next, past⟩ := kept.port router found connected
  have now : h.simulator.globalTime ≤ event.time := kept.clock _ ⟨event, g.inside, rfl⟩
  have soon : event.time ≤ sent + 10000 + 2 * delay := by
    obtain ⟨request, queued, due⟩ := next.request
    exact (g.earliest request queued).trans ((Nat.mod_le _ _).trans due)
  rw [updated, sub32_of_le (past.trans now) event.time_lt]
  omega

/-- A call that is no arrival of a PONG neither changes the port when it is connected nor connects
it. -/
theorem port_of_call (g : Going config wf h after event choice requests) (of : lane.Of config)
    (kept : Kept config lane delay h.simulator) {router : Router}
    (found : h.simulator.routers lane.id = some router)
    (coherent : router.Coherent (wf.topology.site lane.id)) {called : Routing.Event} {rest : List Request}
    (admitted : (wf.topology.site lane.id).admits called = true)
    (calls : event.kind.calls event.time choice.junk = some (lane.id, called, rest))
    (elsewhere : ∀ sent, event.toRequest ≠ lane.arrival delay sent) :
    ((router.ports lane.i).connected = true →
        (router.handle called).1.ports lane.i = router.ports lane.i) ∧
      (((router.handle called).1.ports lane.i).connected = true →
        (router.ports lane.i).connected = true) := by
  have change := coherent.handle_port admitted lane.i
  generalize (router.handle called).1.ports lane.i = port at change
  cases change with
  | same => exact ⟨fun _ => rfl, fun connected => connected⟩
  | @measured now source dest time junk pong =>
    obtain ⟨kind, -⟩ := g.mirrored.received g.inside calls pong (by simp)
    have leg := kept.lawful event.toRequest ⟨event, g.inside, rfl⟩ time (by
      rw [show event.toRequest.kind = _ from kind]
      simp [Lane.probe])
    obtain ⟨due, rfl, rfl⟩ := leg.of_ponged kind
    exact absurd (by rw [Lane.arrival, ← due, ← kind]) (elsewhere time)
  | @replaced now other source dest time junk pong away leads =>
    subst pong
    refine ⟨fun connected => ?_, fun connected => by cases connected⟩
    have ends := Site.joins_iff.mp (coherent.linked.ends lane.i connected)
    have joins := Site.joins_iff.mp (show (wf.topology.site lane.id).joins other source = true
      from admitted)
    -- the other port would lead to the same node
    have leads_to : (config.peer lane.id lane.i).map Prod.fst = some (router.ports lane.i).toId :=
      ends.2
    have other_to : (config.peer lane.id other).map Prod.fst = some source := joins.2
    rw [of.peer, Option.map_some, leads] at leads_to
    obtain ⟨⟨m, port⟩, peer, same⟩ := Option.map_eq_some_iff.mp other_to
    obtain rfl : m = lane.n := same.trans (Option.some.inj leads_to).symm
    exact absurd (of.only other port peer).symm away
  | @closed now alarm old =>
    -- `refreshDV` finds the port young
    subst alarm
    simp only [Port.expired, Bool.and_eq_true, decide_eq_true_eq] at old
    refine ⟨fun connected => ?_, fun connected => by cases connected⟩
    have young := g.young kept found connected
    obtain ⟨-, rfl, -⟩ := EventKind.calls_alarm calls
    omega

/-- What a turn does to the port: the arrival of a PONG connects it, and nothing else changes it
when it is connected or connects it when it is not. -/
theorem port_after (g : Going config wf h after event choice requests) (of : lane.Of config)
    (kept : Kept config lane delay h.simulator) {router' : Router}
    (found' : after.routers lane.id = some router') :
    ∃ router, h.simulator.routers lane.id = some router ∧
      ((∃ sent, event.toRequest = lane.arrival delay sent ∧ (router'.ports lane.i).connected = true ∧
          (router'.ports lane.i).updated = event.time) ∨
        (∀ sent, event.toRequest ≠ lane.arrival delay sent) ∧
          ((router.ports lane.i).connected = true → router'.ports lane.i = router.ports lane.i) ∧
          ((router'.ports lane.i).connected = true → (router.ports lane.i).connected = true)) := by
  cases calls : event.kind.calls event.time choice.junk with
  | none =>
    obtain ⟨mid, dispatched, routers, -⟩ := g.dispatched
    rw [routers, Simulator.routers_of_not_calls calls dispatched] at found'
    refine ⟨router', found', .inr ⟨fun sent same => ?_, fun _ => rfl, id⟩⟩
    rw [show event.kind = _ from congrArg Request.kind same] at calls
    cases calls
  | some call =>
    obtain ⟨id, called, rest⟩ := call
    obtain ⟨router, own, found, coherent, admitted, routers, -⟩ := g.calls calls
    rw [routers, Function.update_apply] at found'
    split_ifs at found' with here
    · subst here
      cases found'
      refine ⟨router, found, ?_⟩
      by_cases arrived : ∃ sent, event.toRequest = lane.arrival delay sent
      · obtain ⟨sent, same⟩ := arrived
        rw [show event.kind = _ from congrArg Request.kind same] at calls
        cases calls
        rw [coherent.handle_own_pong admitted]
        exact .inl ⟨sent, same, rfl, rfl⟩
      · have elsewhere : ∀ sent, event.toRequest ≠ lane.arrival delay sent :=
          fun sent same => arrived ⟨sent, same⟩
        exact .inr ⟨elsewhere, g.port_of_call of kept found coherent admitted calls elsewhere⟩
    · refine ⟨router', found', .inr ⟨fun sent same => ?_, fun _ => rfl, fun connected => connected⟩⟩
      rw [show event.kind = _ from congrArg Request.kind same] at calls
      cases calls
      exact here rfl

/-- The arrival of a PONG comes after everything about the PING before it. -/
theorem overdue (g : Going config wf h after event choice requests)
    (kept : Kept config lane delay h.simulator)
    (same : event.toRequest = lane.arrival delay (sent + 10000)) : ¬ lane.UnderWay delay sent after := by
  rintro ⟨request, leg, waits⟩
  have narrow := kept.narrow _ ⟨event, g.inside, rfl⟩ (by rw [same]; rfl)
  have due : event.due = sent + 10000 + 2 * delay := congrArg Request.due same
  have time : event.time = event.due := Event.time_eq narrow
  have later := (g.later request waits).trans (Nat.mod_le _ _)
  have before := leg.due.2
  omega

/-- Behind the PONG that the connected port has had last, the next probe is on its way. -/
theorem pongs (g : Going config wf h after event choice requests) (of : lane.Of config)
    (kept : Kept config lane delay h.simulator) {router' : Router}
    (found' : after.routers lane.id = some router') (connected : (router'.ports lane.i).connected = true) :
    ∃ sent, (router'.ports lane.i).updated = sent + 2 * delay ∧ lane.Next delay sent after ∧
      sent + 2 * delay ≤ after.globalTime := by
  have queued : h.simulator.Queued event.toRequest := ⟨event, g.inside, rfl⟩
  have now : h.simulator.globalTime ≤ event.time := kept.clock _ queued
  obtain ⟨router, found, ⟨sent, same, -, updated⟩ | ⟨elsewhere, stays, was⟩⟩ :=
    g.port_after of kept found'
  · have narrow := kept.narrow _ queued (by rw [same]; rfl)
    have due : event.due = sent + 2 * delay := congrArg Request.due same
    have time : event.time = sent + 2 * delay := (Event.time_eq narrow).trans due
    refine ⟨sent, updated.trans time, ?_, by rw [g.globalTime, time]⟩
    have came : h.simulator.Queued (lane.arrival delay sent) := same ▸ queued
    rcases g.next of kept (kept.follows sent ⟨_, .ponged, came⟩) with next | next
    · exact next
    · rw [next] at same
      have bad : sent + 10000 + 2 * delay = sent + 2 * delay := congrArg Request.due same
      omega
  · obtain ⟨sent, updated, next, past⟩ := kept.port router found (was connected)
    refine ⟨sent, by rw [stays (was connected), updated], ?_, by rw [g.globalTime]; omega⟩
    exact (g.next of kept next).resolve_right (elsewhere _)

/-- A turn keeps the link alive, unless its delay is changed or it dies. -/
theorem kept (g : Going config wf h after event choice requests) (of : lane.Of config)
    (kept : Kept config lane delay h.simulator) (paced : Paced config lane.number delay h.simulator)
    (keeps : event.kind.changesDelay lane.number = false)
    (lives : event.kind ≠ .linkDie lane.number) : Kept config lane delay after := by
  refine ⟨?_, fun request waits => ?_, fun request waits unscripted => ?_,
    fun request waits sent probe => ?_, fun sent under => ?_,
    fun router' found' connected => g.pongs of kept found' connected, fun router' found' => ?_⟩
  · obtain ⟨link, found, delayed, alive, lossless⟩ := kept.link
    obtain ⟨mid, dispatched, -, links⟩ := g.dispatched
    obtain ⟨link', found', follows⟩ := Simulator.dispatch_link dispatched found
    exact ⟨link', links ▸ found', (congrArg UInt32.toNat (follows.delay keeps)).trans delayed,
      follows.alive lives alive, follows.loss ▸ lossless⟩
  · rw [g.globalTime]
    exact g.later request waits
  · rcases g.requeued.comes request waits with new | old
    · exact g.fits request new
    · exact kept.narrow request old unscripted
  · rcases g.requeued.comes request waits with new | old
    · exact (g.fresh of kept paced new probe).1
    · exact kept.lawful request old sent probe
  · -- the probe was under way before, or its alarm has sent it and is set again
    have before : lane.UnderWay delay sent h.simulator ∨ event.toRequest = lane.alarm sent := by
      obtain ⟨request, leg, waits⟩ := under
      rcases g.requeued.comes request waits with new | old
      · exact (g.fresh of kept paced new leg.probe).2
      · exact .inl ⟨request, leg, old⟩
    rcases before with before | rung
    · rcases g.next of kept (kept.follows sent before) with next | arrives
      · exact next
      · exact absurd under (g.overdue kept arrives)
    · exact .inr (g.rings of kept rung).2
  · obtain ⟨router, found, ⟨-, -, connected, -⟩ | ⟨elsewhere, stays, -⟩⟩ := g.port_after of kept found'
    · exact .inl connected
    · rcases kept.first router found with connected | under
      · exact .inl (by rw [stays connected, connected])
      · exact .inr ((g.onward of kept under).resolve_right (elsewhere _))

end Going

/-! ### The start -/

namespace Kept

variable {config : Config} {lane : Lane} {delay : ℕ} {s after : Simulator}

theorem queued_schedule {requests : List Request} {request : Request} :
    (s.schedule requests).Queued request ↔ request ∈ requests ∨ s.Queued request := by
  constructor
  · rintro ⟨event, inside, rfl⟩
    exact (Simulator.mem_schedule inside).imp id fun old => ⟨event, old, rfl⟩
  · have pushed : (s.schedule requests).eventQ.toList.Perm _ :=
      pushAll_perm s.eventQ (Simulator.events s.allocated requests)
    rintro (new | ⟨event, inside, rfl⟩)
    · obtain ⟨event, made, rfl, -⟩ := Simulator.exists_event s.allocated new
      exact ⟨event, Array.mem_def.mpr (pushed.symm.subset (List.mem_append_left _ made)), rfl⟩
    · exact ⟨event, Array.mem_def.mpr
        (pushed.symm.subset (List.mem_append_right _ (Array.mem_def.mp inside))), rfl⟩

/-- Scheduling leaves what is next. -/
theorem next_schedule {requests : List Request} {sent : ℕ} (next : lane.Next delay sent s) :
    lane.Next delay sent (s.schedule requests) := by
  rcases next with ⟨request, leg, queued⟩ | pending
  · exact .inl ⟨request, leg, queued_schedule.mpr (.inr queued)⟩
  · exact .inr (queued_schedule.mpr (.inr pending))

/-- Behind `init` nothing is under way. -/
theorem simulator (wf : config.WellFormed) {link : Link}
    (found : config.links[lane.number]? = some link) (lossless : link.tenLossProb ≤ 0) :
    Kept config lane link.delay.toNat config.simulator := by
  have from_file : ∀ request, config.simulator.Queued request → request ∈ config.events := by
    rintro request ⟨event, inside, rfl⟩
    rcases Simulator.mem_schedule inside with new | old
    · exact new
    · cases Array.mem_def.mp old
  have unscripted : ∀ request, config.simulator.Queued request → request.kind.scripted ≠ false := by
    intro request queued none_
    rw [config.scripted request (from_file request queued)] at none_
    cases none_
  refine ⟨⟨link, found, rfl, config.alive link (List.mem_of_getElem? found), lossless⟩,
    fun request queued => wf.ahead request (from_file request queued),
    fun request queued none_ => absurd none_ (unscripted request queued),
    fun request queued sent probe => absurd ?_ (unscripted request queued),
    fun sent under => ?_, fun router held => (by cases held), fun router held => (by cases held)⟩
  · rcases Lane.probe_eq_some probe with ⟨_, kind⟩ | ⟨_, kind⟩ | ⟨_, _, kind⟩ | ⟨_, _, kind⟩ <;>
      rw [kind] <;> rfl
  · obtain ⟨request, leg, queued⟩ := under
    exact absurd leg.unscripted (unscripted request queued)

/-- A probe that a node starts with is the first PING of the lane. -/
theorem of_started (wf : config.WellFormed) (of : lane.Of config) {id sent : ℕ} {requests : List Request}
    (started : config.Started s id after requests) {request : Request} (new : request ∈ requests)
    (probe : lane.probe request.kind = some sent) :
    id = lane.id ∧ sent = s.globalTime ∧
      request = ⟨sent, .xmitPktOnLink lane.n lane.j lane.number (.ping lane.id sent)⟩ := by
  rcases started.comes request new with ⟨i, transmits⟩ | ⟨type, rfl⟩
  · rcases transmits.probe wf of probe with ⟨rfl, rfl, src, same, rfl⟩ | ⟨-, -, src, dest, same, -⟩
    · cases same
      exact ⟨rfl, rfl, rfl⟩
    · cases same
  · cases probe

/-- A node starts with a PING under way on each port, and the alarm for the next set. -/
theorem start (wf : config.WellFormed) (of : lane.Of config) (kept : Kept config lane delay s) {id : ℕ}
    {requests : List Request} (started : config.Started s id after requests) :
    Kept config lane delay after := by
  have early := wf.early
  rw [started.eq]
  refine ⟨kept.link, fun request queued => ?_, fun request queued unscripted => ?_,
    fun request queued sent probe => ?_, fun sent under => ?_,
    fun router held connected => ?_, fun router held => ?_⟩
  · rcases queued_schedule.mp queued with new | old
    · obtain ⟨later, soon⟩ := started.due new
      rw [Nat.mod_eq_of_lt (by omega)]
      exact started.globalTime.trans_le later
    · exact kept.clock request old
  · rcases queued_schedule.mp queued with new | old
    · have soon := (started.due new).2
      omega
    · exact kept.narrow request old unscripted
  · rcases queued_schedule.mp queued with new | old
    · rw [(of_started wf of started new probe).2.2]
      exact .ping
    · exact kept.lawful request old sent probe
  · obtain ⟨request, leg, queued⟩ := under
    rcases queued_schedule.mp queued with new | old
    · obtain ⟨rfl, rfl, -⟩ := of_started wf of started new leg.probe
      exact .inr (queued_schedule.mpr (.inl (started.alarms .pingPong)))
    · exact next_schedule (kept.follows sent ⟨request, leg, old⟩)
  · simp only [Simulator.schedule, Function.update_apply] at held
    split_ifs at held
    · cases held
      cases connected
    · obtain ⟨sent, updated, next, past⟩ := kept.port router held connected
      exact ⟨sent, updated, next_schedule next, past⟩
  · simp only [Simulator.schedule, Function.update_apply] at held
    split_ifs at held with here
    · subst here
      obtain ⟨request, new, transmits⟩ := started.pings lane.i (List.getElem?_eq_some_iff.mp of.near).1
      rw [transmits.eq of.peer of.near] at new
      exact .inr ⟨_, started.globalTime ▸ .ping, queued_schedule.mpr (.inl new)⟩
    · rcases kept.first router held with connected | ⟨request, leg, queued⟩
      · exact .inl connected
      · exact .inr ⟨request, leg, queued_schedule.mpr (.inr queued)⟩

theorem boot (wf : config.WellFormed) (of : lane.Of config) {start : Simulator}
    (boots : config.boot = some start) {link : Link}
    (found : config.links[lane.number]? = some link) (lossless : link.tenLossProb ≤ 0) :
    Kept config lane link.delay.toNat start :=
  wf.boot_invariant (simulator wf found lossless)
    (fun _ _ _ _ kept started => kept.start wf of started) boots

end Kept

/-! ### Runs -/

/-- No link of this number dies in the run so far. -/
def History.KeepsAlive (h : History) (number : ℕ) : Prop :=
  ∀ event ∈ h.dispatched, event.kind ≠ .linkDie number

instance (h : History) (number : ℕ) : Decidable (h.KeepsAlive number) :=
  inferInstanceAs (Decidable (∀ event ∈ h.dispatched, event.kind ≠ .linkDie number))

/-- A turn of a run whose times fit. -/
theorem Going.of_step {config : Config} {wf : config.WellFormed} {pops : Pop Event.time}
    {choice : Choice} {start : Simulator} {h next : History} {turn : Turn}
    (mirrored : Mirrored config wf h) (timely : h.Timely start)
    (turned : h.simulator.turn pops choice = some (next.simulator, turn))
    (fits : ∀ event ∈ turn.scheduled, event.due < 2 ^ 32) :
    ∃ requests, Going config wf h next.simulator turn.dispatched choice requests := by
  obtain ⟨mid, requests, dispatched, scheduled, routers, links, -⟩ := Simulator.turn_parts turned
  obtain ⟨facts, -⟩ := Simulator.turn_cases turned
  have inside : turn.dispatched ∈ h.simulator.eventQ := Array.mem_of_getElem? facts.top
  refine ⟨requests, mirrored, inside, ⟨mid, dispatched, routers, links⟩,
    Simulator.turn_requeued timely.heaped turned scheduled (timely.numbered _ (.inr inside)) fits,
    facts.globalTime, ?_, ?_, fun request member => ?_⟩
  · rintro request ⟨event, queued, rfl⟩
    exact timely.heaped.root_le facts.top queued
  · obtain ⟨net, mirrors, -⟩ := mirrored
    rintro request ⟨event, queued, rfl⟩
    exact (mirrors.turned wf turned).2.2.1.2 event queued
  · obtain ⟨event, made, rfl, -⟩ := Simulator.exists_event h.simulator.allocated member
    exact fits event (scheduled ▸ made)

/-- A link that loses nothing, does not die and keeps its delay, the only one between its ends, is
known at each end from the first round trip on and never taken for dead: its port is
connected to the right node at the right cost, and was confirmed in the last 10 s. -/
theorem History.link_kept_alive {config : Config} (wf : config.WellFormed) {pops : Pop Event.time}
    {start : Simulator} (boots : config.boot = some start) {choices : List Choice} {final : History}
    (run : exec (History.step pops) ⟨start, []⟩ choices = some final) (unwrapped : final.Unwrapped)
    {lane : Lane} (of : lane.Of config) {link : Link} (found : config.links[lane.number]? = some link)
    (lossless : link.tenLossProb ≤ 0) (keeps : final.KeepsDelay lane.number)
    (lives : final.KeepsAlive lane.number) {router : Router}
    (held : final.simulator.routers lane.id = some router)
    (late : config.globalTime + 2 * link.delay.toNat < final.simulator.globalTime) :
    (router.ports lane.i).connected = true ∧ (router.ports lane.i).toId = lane.n ∧
      (router.ports lane.i).cost = 2 * link.delay.toNat ∧
      (router.ports lane.i).updated ≤ final.simulator.globalTime ∧
      final.simulator.globalTime ≤ (router.ports lane.i).updated + 10000 := by
  have invariant : final.Timely start ∧ Mirrored config wf final ∧
      (final.Unwrapped → final.KeepsDelay lane.number → final.KeepsAlive lane.number →
        Paced config lane.number link.delay.toNat final.simulator ∧
          Kept config lane link.delay.toNat final.simulator) := by
    refine exec_invariant (I := fun h : History => h.Timely start ∧ Mirrored config wf h ∧
      (h.Unwrapped → h.KeepsDelay lane.number → h.KeepsAlive lane.number →
        Paced config lane.number link.delay.toNat h.simulator ∧
          Kept config lane link.delay.toNat h.simulator)) ?_
      ⟨.of_filled (Config.boot_filled boots), .boot boots, fun _ _ _ => ⟨.boot wf boots found,
        .boot wf of boots found lossless⟩⟩ run
    rintro h choice next ⟨timely, mirrored, kept⟩ stepped
    refine ⟨timely.step stepped, mirrored.step stepped, fun unwrapped keeps lives => ?_⟩
    obtain ⟨-, turn, turned, log⟩ := History.step_cases stepped
    have dispatched := History.dispatched_step log
    have last : turn.dispatched ∈ next.dispatched :=
      dispatched ▸ List.mem_append_right _ List.mem_cons_self
    obtain ⟨paced, kept⟩ := kept
      (fun t inside => unwrapped t (log ▸ List.mem_append_left _ inside))
      (fun event inside => keeps event (dispatched ▸ List.mem_append_left _ inside))
      (fun event inside => lives event (dispatched ▸ List.mem_append_left _ inside))
    obtain ⟨requests, going⟩ := Going.of_step mirrored timely turned
      (unwrapped turn (log ▸ List.mem_append_right _ List.mem_cons_self))
    exact ⟨paced.step mirrored stepped unwrapped fun t inside => keeps _ (List.mem_map_of_mem inside),
      going.kept of kept paced (keeps _ last) (lives _ last)⟩
  obtain ⟨-, ⟨net, mirrors, sound⟩, holds⟩ := invariant
  obtain ⟨paced, kept⟩ := holds unwrapped keeps lives
  have connected : (router.ports lane.i).connected = true := by
    refine (kept.first router held).resolve_right ?_
    rintro ⟨request, leg, queued⟩
    have now := (kept.clock request queued).trans (Nat.mod_le _ _)
    have soon := leg.due.2
    omega
  obtain ⟨sent, updated, next, past⟩ := kept.port router held connected
  obtain ⟨request, queued, due⟩ := next.request
  have now := kept.clock request queued
  have soon : final.simulator.globalTime ≤ sent + 10000 + 2 * link.delay.toNat :=
    now.trans ((Nat.mod_le _ _).trans due)
  have member : lane.id ∈ config.nodes := wf.peer_mem (wf.peer_symm of.peer)
  have coherent : router.Coherent (wf.topology.site lane.id) := by
    have same := Option.some.inj ((mirrors.routers lane.id member).symm.trans held)
    exact same ▸ sound.coherent lane.id
  refine ⟨connected, ?_, ?_, by omega, by omega⟩
  · have ends := (Site.joins_iff.mp (coherent.linked.ends lane.i connected)).2
    have leads_to : (config.peer lane.id lane.i).map Prod.fst = some (router.ports lane.i).toId := ends
    rw [of.peer, Option.map_some, Option.some.injEq] at leads_to
    exact leads_to.symm
  · rcases paced.ports lane.id router held lane.i of.near with cost | ⟨-, closed⟩
    · exact cost
    · rw [connected] at closed
      cases closed

/-- Node 1 of the triangle is joined to node 2 by one link. -/
theorem triangle_lane : Lane.Of triangle ⟨1, 0, 2, 0, 0⟩ where
  peer := by decide
  near := by decide
  far := by decide
  only := by
    intro k port peer
    obtain ⟨_, _, at_port, -⟩ := triangle_wellFormed.peer_iff.mp peer
    have inside : k < 2 := (List.getElem?_eq_some_iff.mp at_port).1
    obtain rfl | rfl : k = 0 ∨ k = 1 := by omega
    · rfl
    · cases peer

/-- After 30 ms of the triangle, node 1 knows its link to node 2. -/
theorem triangle_kept_alive : ∃ start final router, triangle.boot = some start ∧
    exec (History.step (Pop.binary Event.time)) ⟨start, []⟩ (List.replicate 34 ⟨0, 0⟩) = some final ∧
    final.simulator.routers 1 = some router ∧ (router.ports 0).connected = true ∧
    (router.ports 0).toId = 2 ∧ (router.ports 0).cost = 20 := by
  have ran : ((triangle.boot.bind fun start =>
      exec (History.step (Pop.binary Event.time)) ⟨start, []⟩ (List.replicate 34 ⟨0, 0⟩)).any
        fun final => decide final.Unwrapped && decide (final.KeepsDelay 0) && decide (final.KeepsAlive 0) &&
          (final.simulator.routers 1).isSome && decide (20 < final.simulator.globalTime)) = true := by
    decide +kernel
  obtain ⟨final, found, checked⟩ := (Option.any_eq_true _ _).mp ran
  obtain ⟨start, boots, run⟩ := Option.bind_eq_some_iff.mp found
  simp only [Bool.and_eq_true, decide_eq_true_eq] at checked
  obtain ⟨⟨⟨⟨unwrapped, keeps⟩, lives⟩, some_router⟩, late⟩ := checked
  obtain ⟨router, held⟩ := Option.isSome_iff_exists.mp some_router
  obtain ⟨connected, leads, cost, -⟩ := History.link_kept_alive triangle_wellFormed boots run unwrapped
    triangle_lane (show triangle.links[0]? = some ⟨1, 2, 10, 0, true⟩ from rfl) le_rfl keeps lives held late
  exact ⟨start, final, router, boots, run, held, connected, leads, cost⟩

end ComputerNetworks.Simulation
